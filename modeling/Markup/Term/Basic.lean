import Markup.Fault
import Markup.Object

/-!
# What a term is and holds

The questions that the library asks of a value of any type: whether it counts as true, how long
it is, what its items are, whether it can be called, and which shape it has as an argument.
-/

namespace Markup

/--
The shapes that decide the role of an argument.  A byte string is no sequence here, though it
has items.
-/
inductive Shape where
  | absent
  | primitive
  | mapping
  | sequence
  | other
deriving DecidableEq

namespace Term

/-- The name of the type of an object. -/
def objectTypeName : Object Term → String
  | .list _ => "list"
  | .tuple _ => "tuple"
  | .map _ => "dict"
  | .frozenSet _ => "frozenset"
  | .buffer _ => "bytearray"
  | .notANumber => "float"
  | .listener .. => "driver.Fn"
  | .stranger .. => "driver.Opaque"
  | .error c .. => c.qualifiedName
  | .node _ => "hypertree.node.Node"
  | .constructor _ => "hypertree.registry.ElementConstructor"
  | .registry _ => "hypertree.registry.ElementRegistry"
  | .element _ => "hypertree.dom.MemoryElement"
  | .textNode .. => "hypertree.dom.MemoryText"
  | .memoryDocument _ => "hypertree.dom.MemoryDocument"
  | .recordingDocument _ => "hypertree.dom.RecordingDocument"
  | .browserDocument .. => "hypertree.browser.BrowserDocument"
  | .foreign typeName => typeName
  | .unseen => "object"

/-- The name of the type of a term. -/
def typeName : Term → String
  | .atom a => a.typeName
  | .object _ o => objectTypeName o

/-- Whether a term is the missing value. -/
def isNone : Term → Bool
  | .none => true
  | _ => false

/-- The text, if the term is one. -/
def text? : Term → Option String
  | .text s => some s
  | _ => .none

/-- The node, if the term is one. -/
def node? : Term → Option (Node Term)
  | .node _ n => some n
  | _ => .none

/-- The number of items, for what has a length. -/
def length? : Term → Option Nat
  | .text s => some s.length
  | .atom (.bytes bs) => some bs.length
  | .atom (.range p) => some p.length
  | .list _ items => some items.length
  | .tuple _ items => some items.length
  | .map _ entries => some entries.length
  | .object _ (.frozenSet items) => some items.length
  | .object _ (.buffer bytes) => some bytes.length
  | .object _ (.registry r) => some r.constructors.length
  | _ => .none

/-- The greatest number of items that can be counted. -/
def countLimit : Nat := 0x7fffffffffffffff

/--
How many items there are, where items can be counted.  Only a progression can have too many: what
is held item by item can always be counted.
-/
def count : Term → Except Fault Nat
  | .atom (.range p) => if p.length ≤ countLimit then .ok p.length else .error .tooLarge
  | t =>
    match t.length? with
    | some n => .ok n
    | .none => .error .unsuitable

/-- Whether a term counts as true: what has a length, when it is not empty. -/
def truthy : Term → Bool
  | .atom a => a.truthy
  | t => match t.length? with
    | some n => n != 0
    | .none => true

/-- The items in order: the keys of a map, the characters of a text, the names of a registry. -/
def items? : Term → Option (List Term)
  | .text s => some (s.toList.map fun c => .text (String.singleton c))
  | .atom (.bytes bs) => some (bs.map fun b => .atom (.int b.toNat))
  | .atom (.range p) => some (p.toList.map fun i => .atom (.int i))
  | .list _ items => some items
  | .tuple _ items => some items
  | .map _ entries => some (entries.map (·.1))
  | .object _ (.frozenSet items) => some items
  | .object _ (.buffer bytes) => some (bytes.map fun b => .atom (.int b.toNat))
  | .object _ (.registry r) => some (r.constructors.map (·.1))
  | _ => .none

/-- The items, or the fault that there are none to go through. -/
def items (t : Term) : Except Fault (List Term) :=
  match t.items? with
  | some ts => .ok ts
  | .none => .error (.notIterable t.typeName)

/--
The items as far as anyone looks who refuses the first number: a progression holds numbers only,
so its first one stands for all.
-/
def leaves? : Term → Option (List Term)
  | .atom (.range p) => some (p.first?.map fun i => .atom (.int i)).toList
  | t => t.items?

/-- The greatest number of items for which there is room in a list. -/
def listLimit : Nat := 1000000000

/-- Whether there is room to list the items, as far as that can be told beforehand. -/
def checkRoom (t : Term) : Except Fault Unit := do
  if t.length?.isSome then
    if listLimit < (← t.count) then throw .tooLong

/-- The items in a list of their own. -/
def listed (t : Term) : Except Fault (List Term) := do
  t.checkRoom
  t.items

@[simp] theorem items_list (id : Nat) (ts : List Term) : items (.list id ts) = .ok ts := rfl

@[simp] theorem items_tuple (id : Nat) (ts : List Term) : items (.tuple id ts) = .ok ts := rfl

/-- Whether a term can be called. -/
def callable : Term → Bool
  | .atom (.errorClass _) => true
  | .object _ (.listener ..) => true
  | .object _ (.constructor _) => true
  | _ => false

/-- The shape of a term as an argument. -/
def shape : Term → Shape
  | .none => .absent
  | .atom (.bool _) | .atom (.int _) | .atom (.float _) | .text _ => .primitive
  | .object _ .notANumber => .primitive
  | .map .. => .mapping
  | .list .. | .tuple .. | .atom (.range _) => .sequence
  | _ => .other

mutual

/-- Whether a term can be a key: what can change in place by its content cannot. -/
def hashable : Term → Bool
  | .atom _ => true
  | .tuple _ items => allHashable items
  | .object _ (.list _) | .object _ (.map _) | .object _ (.buffer _) | .object _ (.node _) => false
  | .object _ _ => true

/-- Whether every term of a list can be a key. -/
def allHashable : List Term → Bool
  | [] => true
  | t :: ts => hashable t && allHashable ts

end

end Term

end Markup
