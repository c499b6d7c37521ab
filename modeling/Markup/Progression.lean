/-!
# Arithmetic progressions

A progression runs from its start in equal steps and ends before it reaches its stop.  Two
progressions are equal when they hold the same numbers, however they are written.
-/

namespace Markup

/-- The numbers `start`, `start + step`, … that lie before `stop`. -/
structure Progression where
  start : Int
  stop : Int
  step : Int
deriving DecidableEq

namespace Progression

/-- The numbers `0`, `1`, … below `stop`. -/
def below (stop : Int) : Progression := ⟨0, stop, 1⟩

/-- How many numbers lie between two bounds in steps of a size. -/
def stepsBetween (low high size : Int) : Nat :=
  if low < high then ((high - low - 1) / size + 1).toNat else 0

/-- How many numbers a progression holds; without a step there are none. -/
def length (p : Progression) : Nat :=
  if 0 < p.step then stepsBetween p.start p.stop p.step
  else if p.step < 0 then stepsBetween p.stop p.start (-p.step)
  else 0

/-- The number at a place. -/
def nth (p : Progression) (place : Nat) : Int := p.start + p.step * place

/-- The numbers in order. -/
def toList (p : Progression) : List Int := (List.range p.length).map p.nth

@[simp] theorem length_toList (p : Progression) : p.toList.length = p.length := by
  simp [toList]

/-- The first number, if there is one. -/
def first? (p : Progression) : Option Int := if p.length = 0 then none else some p.start

@[simp] theorem head?_toList (p : Progression) : p.toList.head? = p.first? := by
  rcases h : p.length with _ | k <;> simp [toList, first?, h, List.range_succ_eq_map, nth]

/-- The answers for the numbers from a place on, put before those that are known already. -/
def answersFrom {m : Type → Type} [Monad m] {β : Type} (p : Progression) (f : Int → m β) :
    Nat → Nat → List β → m (List β)
  | 0, _, known => return known.reverse
  | count + 1, place, known => do answersFrom p f count (place + 1) ((← f (p.nth place)) :: known)

/-- The answers for the numbers in order, each number being made when its turn comes. -/
def answers {m : Type → Type} [Monad m] {β : Type} (p : Progression) (f : Int → m β) :
    m (List β) :=
  p.answersFrom f p.length 0 []

/-- The place of a number, if the progression holds it. -/
def place? (p : Progression) (n : Int) : Option Nat :=
  let place := (n - p.start) / p.step
  if 0 ≤ place ∧ place < p.length ∧ p.nth place.toNat = n then some place.toNat else none

/-- Whether two progressions hold the same numbers. -/
def sameNumbers (p q : Progression) : Bool :=
  p.length == q.length &&
    (p.length == 0 || (p.start == q.start && (p.length == 1 || p.step == q.step)))

@[simp] theorem sameNumbers_self (p : Progression) : p.sameNumbers p = true := by
  simp [sameNumbers]

/-- The text of a progression; a step of one goes without saying. -/
def display (p : Progression) : String :=
  let step := if p.step = 1 then "" else ", " ++ toString p.step
  "range(" ++ toString p.start ++ ", " ++ toString p.stop ++ step ++ ")"

end Progression

end Markup
