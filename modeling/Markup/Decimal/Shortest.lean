import Markup.Decimal.Binary64

/-!
# The fewest digits that read back

For a positive number `m · 2 ^ e`, `Digits.shortest` finds the decimal `digits · 10 ^ scale`
with the fewest digits that rounds to the same number, and of those the nearest.

The reals that round to the number form an interval around it, ends included exactly when
`m` is even.  If any decimal of `n` digits lies in the interval, then one of the two decimals
of `n` digits next to the number does, so `shortest` only has to try these two for `n = 1`,
`2`, …; seventeen digits always suffice.  All comparisons are between products of naturals.
-/

namespace Markup.Decimal

/-- The decimal `digits · 10 ^ scale`. -/
structure Digits where
  digits : Nat
  scale : Int
deriving DecidableEq

namespace Digits

/-- The number of decimal digits of a positive natural. -/
def count (n : Nat) : Nat := (Nat.toDigits 10 n).length

/-- The power `10 ^ k` as a quotient of naturals. -/
def tenPow (k : Int) : Nat × Nat := (Nat.pow 10 k.toNat, Nat.pow 10 (-k).toNat)

/-- The exponent of the leading digit of `num / den`. -/
def leadingExponent (num den : Nat) : Int :=
  if den ≤ num then (count (num / den) : Int) - 1
  else - (count ((den - 1) / num) : Int)

/-- Drops trailing zeros, at most `fuel` of them. -/
def trimZeros : Nat → Digits → Digits
  | 0, d => d
  | fuel + 1, d =>
    if d.digits ≠ 0 ∧ d.digits % 10 = 0 then trimZeros fuel ⟨d.digits / 10, d.scale + 1⟩ else d

/--
The interval of reals that round to `m · 2 ^ e`, in quarters of `2 ^ e`: its lower end, the
number itself, its upper end.  Below a power of two the lower gap is half as wide.
-/
def quarters (m : Nat) (e : Int) : Nat × Nat × Nat :=
  let low :=
    if m = Binary64.leastFull ∧ Binary64.leastExponent < e then 4 * m - 1 else 4 * m - 2
  (low, 4 * m, 4 * m + 2)

/-- The better decimal with grid `10 ^ k` that rounds to `m · 2 ^ e`, if there is one. -/
def onGrid? (m : Nat) (e : Int) (k : Int) : Option Nat :=
  let (low, mid, high) := quarters m e
  let (a, b) := tenPow k
  let (p, q) := Binary64.twoPow (e - 2)
  -- `c · 10 ^ k` against `x · 2 ^ (e - 2)` is `c · unit` against `x · half`
  let unit := a * q
  let half := p * b
  let inside (c : Nat) : Bool :=
    if m % 2 = 0 then decide (low * half ≤ c * unit ∧ c * unit ≤ high * half)
    else decide (low * half < c * unit ∧ c * unit < high * half)
  let c := mid * half / unit
  match inside c, inside (c + 1) with
  | false, false => none
  | true, false => some c
  | false, true => some (c + 1)
  | true, true =>
    let twice := 2 * (mid * half)
    let middle := (2 * c + 1) * unit
    if twice < middle then some c
    else if middle < twice then some (c + 1)
    else if c % 2 = 0 then some c else some (c + 1)

/-- Tries grids of `n`, `n + 1`, … digits, `tries` of them. -/
def search (m : Nat) (e : Int) (leading : Int) : Nat → Nat → Digits
  | 0, n => ⟨0, leading + 1 - n⟩
  | tries + 1, n =>
    let k := leading + 1 - n
    match onGrid? m e k with
    | some c => if c = 0 then search m e leading tries (n + 1) else ⟨c, k⟩
    | none => search m e leading tries (n + 1)

/-- The decimal of fewest digits that rounds to `m · 2 ^ e`, for positive `m`. -/
def shortest (m : Nat) (e : Int) : Digits :=
  let (p, q) := Binary64.twoPow e
  trimZeros 20 (search m e (leadingExponent (m * p) q) 17 1)

end Digits

end Markup.Decimal
