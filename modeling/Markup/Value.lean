import Markup.Decimal.Layout
import Markup.ErrorClass
import Markup.Progression
import Markup.Text.Quoted

/-!
# Values

A value is an atom or a reference to an object of the store.  Atoms are immutable and have no
identity beyond their content; everything that can be shared or changed in place is an object,
and two references are the same object exactly when their numbers agree.
-/

namespace Markup

/-- A value without an identity of its own. -/
inductive Atom where
  | none
  | bool (b : Bool)
  | int (i : Int)
  | float (x : Binary64)
  | text (s : String)
  | bytes (bs : List UInt8)
  | range (p : Progression)
  /-- A class of errors, as a check names it. -/
  | errorClass (c : ErrorClass)
deriving DecidableEq

/-- An atom, or the number of an object. -/
inductive Value where
  | atom (a : Atom)
  | ref (id : Nat)
deriving DecidableEq

namespace Value

/-- The missing value. -/
@[match_pattern] abbrev none : Value := .atom .none

@[match_pattern] abbrev bool (b : Bool) : Value := .atom (.bool b)

@[match_pattern] abbrev int (i : Int) : Value := .atom (.int i)

@[match_pattern] abbrev text (s : String) : Value := .atom (.text s)

end Value

namespace Atom

/-- The number that a truth value or an integer counts as. -/
def toInt? : Atom → Option Int
  | .bool b => some (if b then 1 else 0)
  | .int i => some i
  | _ => .none

/--
Whether two atoms are equal as values.  Numbers are compared exactly and across their types,
truth values counting as `0` and `1`; two ranges are equal when they hold the same numbers.
-/
def eq (a b : Atom) : Bool :=
  match a.toInt?, b.toInt? with
  | some i, some j => i == j
  | some i, .none => match b with
    | .float y => y.eqInt i
    | _ => false
  | .none, some j => match a with
    | .float x => x.eqInt j
    | _ => false
  | .none, .none => match a, b with
    | .float x, .float y => x.eq y
    | .range p, .range q => p.sameNumbers q
    | a, b => a == b

@[simp] theorem eq_self (a : Atom) : a.eq a = true := by
  cases a <;> simp [eq, toInt?]

/-- Whether an atom counts as true: zero and what is empty do not. -/
def truthy : Atom → Bool
  | .none => false
  | .bool b => b
  | .int i => i != 0
  | .float x => !x.isZero
  | .text s => s != ""
  | .bytes bs => !bs.isEmpty
  | .range p => p.length != 0
  | .errorClass _ => true

/-- The name of the type of an atom. -/
def typeName : Atom → String
  | .none => "NoneType"
  | .bool _ => "bool"
  | .int _ => "int"
  | .float _ => "float"
  | .text _ => "str"
  | .bytes _ => "bytes"
  | .range _ => "range"
  | .errorClass _ => "type"

/-- The text of an atom; a text stands for itself, or is quoted if `quoted`. -/
def display (quoted : Bool) : Atom → String
  | .none => "None"
  | .bool b => if b then "True" else "False"
  | .int i => toString i
  | .float x => Decimal.Layout.standard.write x
  | .text s => if quoted then Text.quote s else s
  | .bytes bs => Text.quoteBytes bs
  | .range p => p.display
  | .errorClass c => "<class '" ++ c.qualifiedName ++ "'>"

@[simp] theorem display_text (s : String) : (Atom.text s).display false = s := rfl

end Atom

end Markup
