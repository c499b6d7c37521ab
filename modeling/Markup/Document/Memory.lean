import Markup.Document.Host
import Markup.Message
import Markup.Calling

/-!
# Documents in memory

A document in memory makes elements that hold their attributes, listeners and children.  A
recording document does the same and lists every capability call and every assigned property
before carrying it out; if it traces, it writes a line for each.

Assigning the id or the class name of an element is reported to the document that made it, which
is how a recording document sees assignments made by anyone.
-/

namespace Markup.Operation

/-- The element that a value refers to, and its number. -/
def element (v : Value) : Operation (Nat × Element Value) := do
  match ← objectOf v with
  | some (id, .element e) => return (id, e)
  | _ => fail .missingMember

/-- The label of an element or a text node. -/
def label (v : Value) : Operation Value := member v "node_name"

/-- A new element of a document, with collections of its own. -/
def makeElement (document : Nat) (name : Value) : Operation Value := do
  let isVoid ← defaultVoid name
  let attributes ← makeMap []
  let listeners ← makeMap []
  let childNodes ← makeList []
  make (.element {
    document := .ref document, name, isVoid, id := .text "", className := .text "",
    attributes, listeners, childNodes, extras := [] })

/-- A new text node. -/
def makeText (text : Value) : Operation Value := make (.textNode text [])

/-- Sets an attribute of an element in place. -/
def setElementAttribute (target key value : Value) : Operation Unit := do
  setItem (← member target "attributes") key value

/-- Registers a listener of an element, after those that are there. -/
def addElementListener (target event listener : Value) : Operation Unit := do
  appendUnder (← member target "listeners") event listener

/-- Appends a child to an element. -/
def appendToElement (parent child : Value) : Operation Unit := do
  append (← member parent "child_nodes") child

/-- The line that a tracing document writes for a call. -/
def traceLine (w : World) (c : DocumentCall) : Except Fault String := do
  let shown ← c.entry.mapM fun v => (w.read v).quoted
  return Message.lineOfTexts Message.spaced ("hypertree.dom:" :: shown)

/-- Adds a call to what a recording has seen, which is kept in `listing` if there is one. -/
def listCall (id : Nat) (listing : Option Value) (c : DocumentCall) : Operation Unit := do
  match listing with
  | none => update id fun
    | .recordingDocument r => .recordingDocument { r with calls := r.calls.push c }
    | o => o
  | some listing => append listing (← make (.tuple c.entry))

/-- Writes a line to the trace of a recording document, or to what takes the place of it. -/
def writeTrace (id : Nat) (line : String) : Operation Unit := do
  match ← get? id with
  | some (.recordingDocument r) =>
    match Entries.get? r.extras "trace_file" with
    | none => put id (.recordingDocument { r with trace := r.trace ++ line })
    | some .none => pure ()
    | some file => discard <| demand file "write" [.text line]
  | _ => pure ()

/-- The text in the file that a recording document writes its trace to. -/
def traceOf (document : Value) : Operation Value := do
  match ← objectOf document with
  | some (_, .recordingDocument r) =>
    match Entries.get? r.extras "trace_file" with
    | none => return .text r.trace
    | some file => demand file "getvalue" []
  | _ => demand (← member document "trace_file") "getvalue" []

/-- Lists a call if the document records, and writes a line for it if it traces. -/
def recordCall (document : Nat) (c : DocumentCall) : Operation Unit := do
  match ← get? document with
  | some (.recordingDocument ⟨_, listing, tracing, _, _⟩) =>
    listCall document listing c
    if (← read tracing).truthy then
      writeTrace document (← ofExcept (traceLine (← getThe World) c))
  | _ => pure ()

/-- Asks a document to record a call, if it is one that records. -/
def record (document : Nat) (c : DocumentCall) : Operation Unit := do
  match ← get? document with
  | some (.recordingDocument _) =>
    discard <| request (.ref document) "_record" ⟨c.entry, []⟩ do
      recordCall document c
      return .none
  | _ => pure ()

/-- Tells a document that a property of one of its elements was assigned. -/
def tellAssigned (document target : Value) (property : ElementProperty) (value : Value) :
    Operation Unit := do
  discard <| request document "did_set_property" ⟨[target, .text property.name, value], []⟩ do
    match document with
    | .ref id => record id (.setProperty (← label target) property value)
    | _ => pure ()
    return .none

/-- Assigns a property of an element and reports it to the element's document. -/
def setElementProperty (target : Value) (property : ElementProperty) (value : Value) :
    Operation Unit := do
  let (id, e) ← element target
  match property with
  | .id => put id (.element { e with id := value })
  | .className => put id (.element { e with className := value })
  tellAssigned e.document target property value

/-- Notes a void flag on an element. -/
def keepElementVoid (target value : Value) : Operation Unit := do
  let (id, e) ← element target
  put id (.element { e with isVoid := value })

/-- Notes a void flag, if there is an element to note it on. -/
def keepVoidIfElement (target value : Value) : Operation Unit := do
  match ← objectOf target with
  | some (_, .element _) => keepElementVoid target value
  | _ => pure ()

/-- A document in memory that lists nothing. -/
def memoryHost (document : Nat) : Host Operation Value where
  createElement := makeElement document
  createTextNode := makeText
  setAttribute := setElementAttribute
  setProperty := setElementProperty
  addEventListener := addElementListener
  appendChild := appendToElement
  keepVoid := keepElementVoid

/-- A document in memory that lists each call before carrying it out. -/
def recordingHost (document : Nat) : Host Operation Value where
  createElement name := do
    record document (.createElement name)
    makeElement document name
  createTextNode text := do
    record document (.createTextNode text)
    makeText text
  setAttribute target key value := do
    record document (.setAttribute (← label target) key value)
    setElementAttribute target key value
  setProperty := setElementProperty
  addEventListener target event listener := do
    record document (.addEventListener (← label target) event listener)
    addElementListener target event listener
  appendChild parent child := do
    let parentLabel ← label parent
    record document (.appendChild parentLabel (← label child))
    appendToElement parent child
  keepVoid := keepElementVoid

/-- A new document in memory. -/
def makeMemoryDocument : Operation Value := make (.memoryDocument [])

/--
A new recording document.  Where it is not said whether it traces, it does if the setting of the
environment is not empty.
-/
def makeRecordingDocument (tracing : Value) (setting : Option String) : Operation Value := do
  let tracing := if tracing = .none then .bool (setting.getD "" != "") else tracing
  make (.recordingDocument ⟨#[], none, tracing, "", []⟩)

end Markup.Operation
