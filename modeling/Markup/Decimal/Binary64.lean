/-!
# Binary floating-point numbers

A finite number is `± significand · 2 ^ exponent`.  It is *canonical* when the significand
has 53 bits, or fewer at the least exponent `-1074`; a number is given in canonical form, so two
finite numbers are equal exactly when their fields agree or both are zero.

`eqInt` and `eq` compare exact values, so no rounding enters a comparison.  Not-a-number is left out
on purpose: it has an identity and lives among the objects of the store.
-/

namespace Markup

/-- A double-precision number other than not-a-number. -/
inductive Binary64 where
  | finite (negative : Bool) (significand : Nat) (exponent : Int)
  | infinite (negative : Bool)
deriving DecidableEq

namespace Binary64

/-- The least exponent of a canonical number. -/
def leastExponent : Int := -1074

/-- The least significand of 53 bits, which is `2 ^ 52`. -/
def leastFull : Nat := 0x10000000000000

/-- Whether the value is zero, whatever its sign. -/
def isZero : Binary64 → Bool
  | .finite _ m _ => m == 0
  | .infinite _ => false

/-- The power `2 ^ e` as a quotient of naturals. -/
def twoPow (e : Int) : Nat × Nat := (Nat.pow 2 e.toNat, Nat.pow 2 (-e).toNat)

/-- Whether the value is exactly the integer `i`. -/
def eqInt : Binary64 → Int → Bool
  | .finite negative m e, i =>
    let (p, q) := twoPow e
    (m * p == i.natAbs * q) && (m == 0 || negative == decide (i < 0))
  | .infinite _, _ => false

/-- The greatest integer that is not above the value, if the value is finite. -/
def floor? : Binary64 → Option Int
  | .finite negative m e =>
    let (p, q) := twoPow e
    let scaled : Int := m * p
    some (Int.fdiv (if negative then -scaled else scaled) q)
  | .infinite _ => none

/-- Whether a natural number is at most the value. -/
def isAtLeast (x : Binary64) (n : Nat) : Bool :=
  match x with
  | .finite .. => x.floor?.any fun i => decide ((n : Int) ≤ i)
  | .infinite negative => !negative

/-- Whether two numbers have the same value; the two zeros do. -/
def eq (a b : Binary64) : Bool :=
  a == b || (a.isZero && b.isZero)

@[simp] theorem eq_self (a : Binary64) : a.eq a = true := by simp [eq]

end Binary64

end Markup
