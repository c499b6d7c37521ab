import Markup.Decimal.Shortest

/-!
# Writing numbers

`Layout` holds the decisions of a number format: which magnitudes are written positionally,
how an exponent looks, how infinities are spelled.  `Layout.write` applies a layout to the
shortest digits of a number.
-/

namespace Markup.Decimal

/-- How a number is laid out once its digits are chosen. -/
structure Layout where
  /-- Positional below this many digits before the point. -/
  mostWholeDigits : Int
  /-- Positional from this many zeros after the point. -/
  mostLeadingZeros : Int
  /-- What follows the point of a whole number. -/
  wholeFraction : String
  exponentMark : String
  leastExponentDigits : Nat
  infinity : String

/-- The layout of attribute values, content and reports. -/
def Layout.standard : Layout where
  mostWholeDigits := 16
  mostLeadingZeros := 3
  wholeFraction := ".0"
  exponentMark := "e"
  leastExponentDigits := 2
  infinity := "inf"

namespace Layout

/-- A run of `n` zeros. -/
def zeros (n : Nat) : String := String.ofList (List.replicate n '0')

/-- The exponent with its sign, padded to the least number of digits. -/
def exponent (l : Layout) (e : Int) : String :=
  let s := toString e.natAbs
  l.exponentMark ++ (if e < 0 then "-" else "+") ++ zeros (l.leastExponentDigits - s.length) ++ s

/-- A positive number: positional within the limits, else one digit before the point. -/
def writeDigits (l : Layout) (d : Digits) : String :=
  let ds := Nat.toDigits 10 d.digits
  let n : Int := ds.length
  let point := n + d.scale
  if point ≤ l.mostWholeDigits ∧ - l.mostLeadingZeros ≤ point then
    if point ≤ 0 then "0." ++ zeros (-point).toNat ++ String.ofList ds
    else if n ≤ point then String.ofList ds ++ zeros (point - n).toNat ++ l.wholeFraction
    else String.ofList (ds.take point.toNat) ++ "." ++ String.ofList (ds.drop point.toNat)
  else
    let tail := ds.drop 1
    String.ofList (ds.take 1) ++ (if tail.isEmpty then "" else "." ++ String.ofList tail)
      ++ l.exponent (point - 1)

/-- The text of a number. -/
def write (l : Layout) : Binary64 → String
  | .infinite negative => (if negative then "-" else "") ++ l.infinity
  | .finite negative m e =>
    (if negative then "-" else "") ++
      (if m = 0 then "0" ++ l.wholeFraction else l.writeDigits (Digits.shortest m e))

end Layout

end Markup.Decimal
