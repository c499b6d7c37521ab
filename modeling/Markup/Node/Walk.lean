import Markup.Document.Assignment
import Markup.Node.Edit

/-!
# Walking trees

Both walkers visit every node of a tree in document order, the parent before its children, and
hand each one to a visitor frozen, so that the visitor never sees children.

* `transform` collects the answers: a list of the answer for the node, followed by a list for
  each child that is a node and by any other child as it is.
* `traverse` builds a tree: the answer for the node is a node, and its children are replaced by
  the answers for the children.

What is no node is walked as nodes are, as long as it can be frozen and has children; the answers
of a traversal have to be such that children can be assigned to them.  Children that a visitor
adds to a list on the way are reached too.

A visitor runs in any monad in which operations can be run, so it may keep a state of its own
beside the world.  The depth of the walk is bounded by the number of objects, which no tree
exceeds.
-/

namespace Markup.Operation

variable {m : Type → Type} [Monad m] [MonadLiftT Operation m]

/-- Whether a value is a node. -/
def isNode (v : Value) : Operation Bool := do
  match ← objectOf v with
  | some (_, .node _) => return true
  | _ => return false

/-- Replaces the children of a value by a new list. -/
def replaceChildren (v : Value) (children : List Value) : Operation Unit := do
  setMember v "children" (← makeList children)

/-- Collects the answers of a visitor, to a depth. -/
def transformTo (visit : Value → m Value) : Nat → Value → m Value
  | 0, _ => liftM (fail .unsuitable : Operation Value)
  | depth + 1, v => do
    let first ← visit (← askFrozen v)
    let children ← member v "children"
    let rest ← answersOf (fun c => do
      if ← isNode c then transformTo visit depth c else return c) children
    makeList (first :: rest)

/-- Builds the tree of the answers of a visitor, to a depth. -/
def traverseTo (visit : Value → m Value) : Nat → Value → m Value
  | 0, _ => liftM (fail .unsuitable : Operation Value)
  | depth + 1, v => do
    let root ← visit (← askFrozen v)
    let children ← member v "children"
    let walked ← answersOf (fun c => do
      if ← isNode c then traverseTo visit depth c else return c) children
    replaceChildren root walked
    return root

/-- Collects the answers of a visitor. -/
def transform (visit : Value → m Value) (v : Value) : m Value := do
  transformTo visit (← depthBound) v

/-- Builds the tree of the answers of a visitor. -/
def traverse (visit : Value → m Value) (v : Value) : m Value := do
  traverseTo visit (← depthBound) v

/-- The tree as a nested list of frozen nodes. -/
def toList (v : Value) : Operation Value :=
  request v "transform" ⟨[.none], []⟩ (transform pure v)

end Markup.Operation
