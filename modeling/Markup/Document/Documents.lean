import Markup.Document.OuterHtml
import Markup.Document.Page
import Markup.Rendering

/-!
# Working with documents

The operations that take a document of any kind: materialising a node or a list of nodes, and
dispatching an event to the listeners of an element.  Where no document is given, the ambient
document takes its place, and it is looked up before any node is.

A value that is no document is used as one as long as it has the capabilities that are asked for
on the way, and a value that is no node is materialised as long as it has the members.

A recording document may add its calls to a list that is also a collection of a node.  What such a
document is given is therefore read step by step, never beforehand.
-/

namespace Markup.Operation

/-- A host without any capability of its own. -/
def refusingHost : Host Operation Value where
  createElement _ := fail .unsuitable
  createTextNode _ := fail .unsuitable
  setAttribute _ _ _ := fail .unsuitable
  setProperty _ _ _ := fail .unsuitable
  addEventListener _ _ _ := fail .unsuitable
  appendChild _ _ := fail .unsuitable
  keepVoid _ _ := fail .unsuitable

/--
A value that is asked for each capability; `own` is the host that it is where a capability is a
skill of its own.
-/
def askingHost (document : Value) (own : Host Operation Value) : Host Operation Value where
  createElement name := request document "create_element" ⟨[name], []⟩ (own.createElement name)
  createTextNode text :=
    request document "create_text_node" ⟨[text], []⟩ (own.createTextNode text)
  setAttribute e key value := do
    discard <| request document "set_attribute" ⟨[e, key, value], []⟩ do
      own.setAttribute e key value
      return .none
  setProperty e property value := setMember e property.name value
  addEventListener e event listener := do
    discard <| request document "add_event_listener" ⟨[e, event, listener], []⟩ do
      own.addEventListener e event listener
      return .none
  appendChild parent child := do
    discard <| request document "append_child" ⟨[parent, child], []⟩ do
      own.appendChild parent child
      return .none
  keepVoid := keepVoidIfElement
  appendText parent text := do
    discard <| find document "append_child"
    let child ← request document "create_text_node" ⟨[text], []⟩ (own.createTextNode text)
    discard <| request document "append_child" ⟨[parent, child], []⟩ do
      own.appendChild parent child
      return .none

/-- A host, or the document itself asked if it was given answers of its own. -/
def hostWith (document : Value) (extras : List (String × Value)) (own : Host Operation Value) :
    Host Operation Value :=
  if extras.isEmpty then own else askingHost document own

/-- The capabilities of a value as a document. -/
def hostOf (document : Value) : Operation (Host Operation Value) := do
  match ← objectOf document with
  | some (id, .memoryDocument extras) => return hostWith document extras (memoryHost id)
  | some (id, .recordingDocument r) => return hostWith document r.extras (recordingHost id)
  | some (_, .browserDocument _ extras) => return hostWith document extras (pageHost document)
  | _ => return askingHost document refusingHost

/-- The document that was given, or the ambient one. -/
def documentOr (document : Value) : Operation Value :=
  match document with
  | .none => ambientDocument
  | document => return document

/-- Sets plain attributes in order, each being read when its turn comes. -/
def setAttributesStepwise (h : Host Operation Value) (e attrs : Value) : Operation Unit := do
  let entries ← ofExcept (← read attrs).entries
  entries.forM fun entry => do h.setPlain e (← read entry.1.toValue) (← read entry.2.toValue)

/--
Materialises a value step by step, to a depth, each of its members being read when its turn comes.
This is what becomes of a value that is no node, and of a node whose collections may change on the
way.
-/
def materializeStepwise (document : Value) (h : Host Operation Value) :
    Nat → Value → Operation Value
  | 0, _ => fail .unsuitable
  | depth + 1, v => do
    discard <| find document "create_element"
    let e ← h.createElement (← member v "name")
    if let some (_, .element _) ← objectOf e then h.keepVoid e (← member v "is_void")
    setAttributesStepwise h e (← member v "attrs")
    h.setId e (← readMember v "id")
    h.setClasses e (← readMember v "class_list")
    h.setStyle e (← readMember v "style")
    h.addListeners e (← readMember v "listeners")
    h.addContent e (← readMember v "content")
    let children ← member v "children"
    eachItem (fun c => do
      let child ← match ← read c with
        | .text s => h.createTextNode (.text s)
        | .node .. => materializeStepwise document h depth c
        | t => fail (Html.invalidChild t)
      h.appendChild e child) children
    return e

/--
Whether a document adds its calls to a list that others hold, and that may be among the collections
of what it materialises.
-/
def listsOpenly (document : Value) : Operation Bool := do
  match ← objectOf document with
  | some (_, .recordingDocument r) => return r.listing.isSome
  | _ => return false

/-- Materialises a value with a document. -/
def materializeWith (document v : Value) : Operation Value := do
  let h ← hostOf document
  match ← read v, ← listsOpenly document with
  | .node _ n, false => h.materializeNode n
  | _, _ => materializeStepwise document h (← depthBound) v

/-- Materialises a node and gives the root, which is not attached anywhere. -/
def materialize (v document : Value) : Operation Value := do
  materializeWith (← documentOr document) v

/-- What a value gives when it is asked to materialise itself. -/
def toDocument (v document : Value) : Operation Value :=
  request v "to_dom" ⟨[document], []⟩ (materialize v document)

/-- Materialises nodes and appends each to a parent, in order. -/
def appendList (parent nodes document : Value) : Operation Unit := do
  let document ← documentOr document
  eachItem (fun v => do
    discard <| find document "append_child"
    (← hostOf document).appendChild parent (← materializeWith document v)) nodes

/-! ## Events -/

/-- What holds the listeners that are registered for an event. -/
def listenersFor (listeners event : Value) : Operation Value := do
  let nothing ← make (.tuple [])
  match ← objectOf listeners with
  | some (_, .map entries) =>
    let key ← readKey event
    return (((← getThe World).readKeys entries).get? key).getD nothing
  | _ => demand listeners "get" [event, nothing]

/-- The item that a value holds at a place now. -/
def itemAt (holder : Value) (place : Nat) : Operation (Option Value) := do
  match holder with
  | .atom (.range p) => return if place < p.length then some (.int (p.nth place)) else none
  | holder => return (← itemsOf holder)[place]?

/--
Calls the items that a value holds from a place on, one after the other, until one fails.  Each is
taken when its turn comes, since a call can change what is held.  As a call can also add an item
every time, no more than so many are made.
-/
def callItems (call : Value → Operation Unit) (holder : Value) : Nat → Nat → Operation Unit
  | 0, _ => return ()
  | calls + 1, place => do
    match ← itemAt holder place with
    | none => return ()
    | some listener =>
      call listener
      callItems call holder calls (place + 1)

section Dispatching

/-
What listens is made by whoever uses the library, and a call of it can do anything to the world:
`call` says what.
-/
variable (call : Value → List Value → Operation Unit) (limit : Nat)

/--
Calls the listeners of an element for an event, one after the other, until one fails, and at most
`limit` of them.
-/
def dispatchEvent (target event : Value) (args : List Value) : Operation Unit := do
  let listeners ← listenersFor (← member target "listeners") event
  callItems (fun listener => call listener args) listeners limit 0

/-- Asks a value to dispatch an event. -/
def askDispatch (target event : Value) (args : List Value) : Operation Unit := do
  discard <| request target "dispatch_event" ⟨event :: args, []⟩ do
    dispatchEvent call limit target event args
    return .none

end Dispatching

/-- What becomes of values that are called if they do nothing to the world but what is known. -/
def callPlainly (callee : Value) (args : List Value) : Operation Unit :=
  discard <| callValue callee ⟨args, []⟩

end Markup.Operation
