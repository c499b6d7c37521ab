import Markup.Calling

/-!
# Changing nodes

A node is meant to stay as it was made, with two exceptions: listeners can be added to it, and
walking a tree replaces children.  Its collections can still be changed in place by whoever holds
them, and every node that shares a collection sees the change.

`freeze` makes a node with the same fields and no children.  All other fields of the two are the
same objects, so they stay in step.  What is no node is frozen and listened on as nodes are, as
long as it has the members for it.
-/

namespace Markup

/-- The fields of a node to be given to another one, all but its children. -/
def Node.frozenFields (n : Node Value) : NodeFields where
  isVoid := some n.isVoid
  id := some n.id
  classes := some n.classes
  style := some n.style
  listeners := some n.listeners
  attrs := some n.attrs
  content := some n.content
  children := none

namespace Operation

/-- A node with the same fields and no children. -/
def freezeNode (n : Node Value) : Operation Value := makeNode n.name n.frozenFields

/-- A node with the members of a value for its fields and no children. -/
def freezeAlike (v : Value) : Operation Value := do
  let name ← member v "name"
  let isVoid ← member v "is_void"
  let id ← member v "id"
  let classes ← member v "class_list"
  let style ← member v "style"
  let listeners ← member v "listeners"
  let attrs ← member v "attrs"
  let content ← member v "content"
  makeNode name { isVoid, id, classes, style, listeners, attrs, content }

/-- A node with the same fields as another one and no children. -/
def freeze (v : Value) : Operation Value := do
  match ← objectOf v with
  | some (_, .node n) => freezeNode n
  | _ => freezeAlike v

/-- What a value gives when it is asked to freeze itself. -/
def askFrozen (v : Value) : Operation Value := request v "freeze" ⟨[], []⟩ (freeze v)

/-- Adds a listener for an event, after those that are there, and gives the value back. -/
def on (v event listener : Value) : Operation Value := do
  appendUnder (← member v "listeners") event listener
  return v

/-- What a value holds at a position or under a key. -/
def itemOf (v key : Value) : Operation Value := do
  return (← ofExcept ((← read v).item (← read key))).toValue

end Operation

end Markup
