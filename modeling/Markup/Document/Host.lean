import Markup.Html

/-!
# Materialising nodes

A `Host` is a document seen through its capabilities, in any monad and with any type of handles.
`Host.materialize` turns a tree into handles of the host: depth first and in document order, each
element fully set up before its first child is made, and each child appended as soon as its own
subtree is complete.

The order for one element is: its plain attributes after the boolean rule, its id, its classes,
its style, its listeners, its content as a text node, its children.  The root is not appended
anywhere.
-/

namespace Markup

/-- A document through its capabilities. -/
structure Host (m : Type → Type) [Monad m] (H : Type) where
  createElement : Value → m H
  createTextNode : Value → m H
  setAttribute : H → Value → Value → m Unit
  setProperty : H → ElementProperty → Value → m Unit
  addEventListener : H → Value → Value → m Unit
  appendChild : H → H → m Unit
  /-- Notes the void flag of a node on its element, where elements have one. -/
  keepVoid : H → Value → m Unit
  /-- Appends a new text node. -/
  appendText : H → Value → m Unit := fun e text => do appendChild e (← createTextNode text)

namespace Host

variable {m : Type → Type} [Monad m] [MonadExcept Fault m] {H : Type}

/-- Sets a plain attribute, unless the boolean rule leaves it out. -/
def setPlain (h : Host m H) (e : H) (key value : Term) : m Unit := do
  match ← MonadExcept.ofExcept (Html.shownValue key value) with
  | none => pure ()
  | some shown => h.setAttribute e key.toValue shown.toValue

/-- Sets the plain attributes in order. -/
def setAttributes (h : Host m H) (e : H) (attrs : Term) : m Unit := do
  let entries ← MonadExcept.ofExcept attrs.entries
  entries.forM fun entry => h.setPlain e entry.1 entry.2

/-- Assigns the id, if there is one. -/
def setId (h : Host m H) (e : H) (id : Term) : m Unit :=
  unless id.isNone do h.setProperty e .id id.toValue

/-- Assigns the classes, if there are any. -/
def setClasses (h : Host m H) (e : H) (classes : Term) : m Unit := do
  if classes.truthy then
    h.setProperty e .className (.text (← MonadExcept.ofExcept (Html.joinClasses classes)))

/-- Sets the style, if there is one. -/
def setStyle (h : Host m H) (e : H) (style : Term) : m Unit := do
  unless style.isNone do
    h.setAttribute e (.text "style") (.text (← MonadExcept.ofExcept (Html.styleText style)))

/-- Registers the listeners of one event in order. -/
def addListenersFor (h : Host m H) (e : H) (event : Value) (listeners : Term) : m Unit :=
  match listeners with
  | .atom (.range p) => discard <| p.answers fun i => h.addEventListener e event (.int i)
  | t => do
    let items ← MonadExcept.ofExcept t.items
    items.forM fun listener => h.addEventListener e event listener.toValue

/-- Registers the listeners event by event. -/
def addListeners (h : Host m H) (e : H) (listeners : Term) : m Unit := do
  let entries ← MonadExcept.ofExcept listeners.entries
  entries.forM fun entry => h.addListenersFor e entry.1.toValue entry.2

/-- Appends the content as a text node, if there is any. -/
def addContent (h : Host m H) (e : H) (content : Term) : m Unit :=
  unless content.isNone do h.appendText e content.toValue

/-- Appends children that cannot be nodes. -/
def appendLeaves (h : Host m H) (e : H) : List Term → m Unit
  | [] => pure ()
  | .text s :: ts => do
    h.appendChild e (← h.createTextNode (.text s))
    appendLeaves h e ts
  | t :: _ => throw (Html.invalidChild t)

mutual

/-- Materialises a node. -/
def materializeNode (h : Host m H) : Node Term → m H
  | ⟨name, isVoid, id, classes, style, listeners, attrs, content, children⟩ => do
    let e ← h.createElement name.toValue
    h.keepVoid e isVoid.toValue
    h.setAttributes e attrs
    h.setId e id
    h.setClasses e classes
    h.setStyle e style
    h.addListeners e listeners
    h.addContent e content
    appendChildren h e children
    return e

/-- Materialises and appends the items of what holds the children. -/
def appendChildren (h : Host m H) (e : H) : Term → m Unit
  | .list _ items => appendItems h e items
  | .tuple _ items => appendItems h e items
  | t =>
    match t.leaves? with
    | some ts => h.appendLeaves e ts
    | none => throw (.notIterable t.typeName)

/-- Materialises and appends some children. -/
def appendItems (h : Host m H) (e : H) : List Term → m Unit
  | [] => pure ()
  | t :: ts => do
    h.appendChild e (← materializeChild h t)
    appendItems h e ts

/-- Materialises a child. -/
def materializeChild (h : Host m H) : Term → m H
  | .text s => h.createTextNode (.text s)
  | .node _ n => materializeNode h n
  | t => throw (Html.invalidChild t)

end

end Host

end Markup
