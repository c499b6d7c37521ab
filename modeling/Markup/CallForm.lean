import Markup.Attributes

/-!
# Call forms

A constructor takes up to three positional arguments whose roles follow from their shapes and
positions, and any number of keyword attributes.  `Roles.resolve` applies the rules in order, a
later one overriding an earlier one:

* the first argument, if a text or a map, is the attributes, and if a sequence, the children;
* the second, if a primitive, is the content, if a map, the attributes, if a sequence, the children;
* the third, if a sequence, is the children.

A role that nothing takes is empty.  Children are copied, and numbers and truth values among
them become texts.

`Call.bind` matches arguments and keywords with parameters first: a keyword named like a
parameter fills that parameter, and must not meet another argument there.  `Call.fill` does the
same for any parameters that leave no other keywords.
-/

namespace Markup

/-- What the arguments of a call mean. -/
structure Roles where
  attributes : AttributeSource
  content : String
  children : List Term

namespace Roles

/-- The text of a primitive: truth values are in lower case. -/
def primitiveText (t : Term) : Except Fault String :=
  match t with
  | .atom (.bool b) => .ok (if b then "true" else "false")
  | t => t.plain

/-- A child as it is stored: numbers and truth values become texts. -/
def laxChild (t : Term) : Except Fault Term :=
  match t with
  | .atom (.bool _) | .atom (.int _) | .atom (.float _) | .object _ .notANumber => do
    return .text (← primitiveText t)
  | t => .ok t

/-- The children that the items of a value are. -/
def laxChildren (t : Term) : Except Fault (List Term) := do
  (← t.items).mapM laxChild

/-- The attributes that an argument gives in the first place. -/
def firstAttributes? : Term → Option AttributeSource
  | .text s => some (.selector s)
  | .map _ es => some (.entries es)
  | _ => none

/-- The attributes that an argument gives in the second place. -/
def secondAttributes? : Term → Option AttributeSource
  | .map _ es => some (.entries es)
  | _ => none

/-- The content that an argument gives in the second place. -/
def content? (t : Term) : Option Term := if t.shape = .primitive then some t else none

/-- The children that an argument gives in any place. -/
def children? (t : Term) : Option Term := if t.shape = .sequence then some t else none

/-- The roles of three arguments. -/
def resolve (one two three : Term) : Except Fault Roles := do
  let attributes := (secondAttributes? two).or (firstAttributes? one)
  let content ← match content? two with
    | some t => primitiveText t
    | none => pure ""
  let children ← match (children? three).or ((children? two).or (children? one)) with
    | some t => laxChildren t
    | none => pure []
  return ⟨attributes.getD (.entries []), content, children⟩

end Roles

/-- A call with its arguments and keywords. -/
structure Call (α : Type) where
  args : List α
  kw : List (String × α)

namespace Call

variable {α : Type}

/-- Takes the keyword of a parameter out of some keywords. -/
def take (parameter : String) (kw : List (String × α)) : Option α × List (String × α) :=
  ((kw.find? (·.1 = parameter)).map (·.2), kw.filter (·.1 ≠ parameter))

/-- The value of a parameter: its argument or its keyword, but not both. -/
def parameter (argument keyword : Option α) : Except Fault (Option α) :=
  match argument, keyword with
  | some _, some _ => .error .unsuitable
  | some a, none => .ok (some a)
  | none, k => .ok k

/--
Matches a call with the three parameters of a constructor.  `taken` are the names of the
parameters that are already filled, which no keyword may name.
-/
def bind (taken : List String) (c : Call α) :
    Except Fault (Option α × Option α × Option α × List (String × α)) := do
  if c.args.length > 3 then throw .unsuitable
  if c.kw.any (taken.contains ·.1) then throw .unsuitable
  let (one, kw) := take "one" c.kw
  let (two, kw) := take "two" kw
  let (three, kw) := take "three" kw
  return (← parameter c.args[0]? one, ← parameter c.args[1]? two, ← parameter c.args[2]? three, kw)

/-- Fills parameters, each with its default if it has one; nothing else may be given. -/
def fill : List (String × Option α) → Call α → Except Fault (List α)
  | [], c => if c.args.isEmpty && c.kw.isEmpty then .ok [] else .error .unsuitable
  | (name, fallback) :: ps, c => do
    let (keyword, kw) := take name c.kw
    match (← parameter c.args.head? keyword).or fallback with
    | some v => return v :: (← fill ps ⟨c.args.tail, kw⟩)
    | none => .error .unsuitable

/-- Fills the first parameter, which has to be given, and leaves the rest of the call. -/
def first (name : String) (c : Call α) : Except Fault (α × Call α) := do
  let (keyword, kw) := take name c.kw
  match ← parameter c.args.head? keyword with
  | some v => return (v, ⟨c.args.tail, kw⟩)
  | none => .error .unsuitable

end Call

end Markup
