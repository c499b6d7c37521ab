import Markup.Term.Equality
import Markup.Vocabulary

/-!
# Members

Values have members under names.  A name leads to a part that is held there, or to a skill,
something that the value can be asked to do.  What an object was given beside its own members
comes first.  A registry also has a member for each element, under the keyword for its name, and
says which name it was that led nowhere; every other value without the member says nothing.

`Object.find` is the look-up and `Object.assign?` the assignment, both over parts of any type.

What a name leads to may be called though it was not meant to be.  `Term.reply` says what comes
back from such a call, as far as anyone can make use of it.
-/

namespace Markup

/-- What a name leads to. -/
inductive Found (α : Type) where
  /-- What is held under the name. -/
  | part (a : α)
  /-- Something that can be asked for. -/
  | skill

/-- What a name leads to, over other parts. -/
def Found.map {α β : Type} (f : α → β) : Found α → Found β
  | .part a => .part (f a)
  | .skill => .skill

/-- The fields of a node, each with its name. -/
def Node.fields {α : Type} (n : Node α) : List (String × α) :=
  [("name", n.name), ("is_void", n.isVoid), ("id", n.id), ("class_list", n.classes),
    ("style", n.style), ("listeners", n.listeners), ("attrs", n.attrs), ("content", n.content),
    ("children", n.children)]

/-- Assigns a field by name. -/
def Node.assign? {α : Type} (n : Node α) (field : String) (v : α) : Option (Node α) :=
  match field with
  | "name" => some { n with name := v }
  | "is_void" => some { n with isVoid := v }
  | "id" => some { n with id := v }
  | "class_list" => some { n with classes := v }
  | "style" => some { n with style := v }
  | "listeners" => some { n with listeners := v }
  | "attrs" => some { n with attrs := v }
  | "content" => some { n with content := v }
  | "children" => some { n with children := v }
  | _ => none

/-- The parts of an element, each with its name; two of them have a second one. -/
def Element.fields {α : Type} (e : Element α) : List (String × α) :=
  [("node_name", e.name), ("is_void", e.isVoid), ("id", e.id), ("className", e.className),
    ("attributes", e.attributes), ("listeners", e.listeners), ("child_nodes", e.childNodes),
    ("document", e.document), ("_id", e.id), ("_class_name", e.className)]

/-- Assigns a part by name. -/
def Element.assign {α : Type} (e : Element α) (field : String) (v : α) : Element α :=
  match field with
  | "node_name" => { e with name := v }
  | "is_void" => { e with isVoid := v }
  | "id" | "_id" => { e with id := v }
  | "className" | "_class_name" => { e with className := v }
  | "attributes" => { e with attributes := v }
  | "listeners" => { e with listeners := v }
  | "child_nodes" => { e with childNodes := v }
  | "document" => { e with document := v }
  | _ => { e with extras := Entries.set e.extras field v }

/-- The constructor that a member name of a registry stands for. -/
def Registry.element {α : Type} [BEq α] (atom : Atom → α) (r : Registry α) (name : String) :
    Except Fault α :=
  if name.toList.head? = some '_' then .error (.hiddenName name)
  else match Entries.get? r.constructors (atom (.text (Vocabulary.keyOfKeyword name))) with
    | some c => .ok c
    | none => .error (.noSuchElement name)

namespace Object

variable {α : Type}

/-- What an object was given beside its own members. -/
def extras : Object α → List (String × α)
  | .listener _ _ _ extras => extras
  | .stranger _ extras => extras
  | .error _ _ extras => extras
  | .registry r => r.extras
  | .element e => e.extras
  | .textNode _ extras => extras
  | .memoryDocument extras => extras
  | .recordingDocument r => r.extras
  | .browserDocument _ extras => extras
  | _ => []

/-- The parts that an object holds under names; `atom` makes an atom a part. -/
def parts (atom : Atom → α) : Object α → List (String × α)
  | .listener name .. => [("name", name)]
  | .stranger name _ => [("name", atom (.text name))]
  | .error .attribute .. => [("name", atom .none), ("obj", atom .none)]
  | .node n => n.fields
  | .constructor c => [("name", c.name), ("is_void", c.isVoid)]
  | .registry r => [("void_tags", r.voidTags), ("__module__", atom (.text "hypertree.registry"))]
  | .element e => e.fields
  | .textNode data _ => [("data", data), ("node_name", atom (.text "#text"))]
  | .recordingDocument r => [("trace", r.tracing)]
  | .browserDocument p _ => [("document", p)]
  | _ => []

/-- The capabilities of a document. -/
def capabilities : List String :=
  ["create_element", "create_text_node", "set_attribute", "add_event_listener", "append_child"]

/-- What an object can be asked to do. -/
def skills : Object α → List String
  | .list _ => ["append"]
  | .map _ => ["items", "get", "setdefault"]
  | .buffer _ => ["append", "lower", "upper", "startswith", "endswith", "replace"]
  | .node _ =>
    ["freeze", "transform", "to_list", "traverse", "on", "summarize", "render", "to_dom"]
  | .registry _ =>
    ["add_element", "is_void", "create", "__len__", "__getitem__", "__contains__", "__getattr__",
      "__repr__", "__str__", "__class__"]
  | .element _ => ["dispatch_event", "outer_html"]
  | .textNode .. => ["outer_html"]
  | .memoryDocument _ => capabilities ++ ["did_set_property"]
  | .recordingDocument _ => capabilities ++ ["did_set_property", "_record"]
  | .browserDocument .. => capabilities
  | .foreign _ =>
    ["createElement", "createTextNode", "setAttribute", "addEventListener", "appendChild"]
  | _ => []

/-- What a name leads to. -/
def find [BEq α] (atom : Atom → α) (o : Object α) (name : String) : Except Fault (Found α) :=
  match Entries.get? (o.extras ++ o.parts atom) name with
  | some part => .ok (.part part)
  | none =>
    if o.skills.contains name then .ok .skill
    else match o with
      | .registry r => .part <$> r.element atom name
      | _ => .error .missingMember

/-- Assigns a member by name, where the object lets it. -/
def assign? (o : Object α) (name : String) (v : α) : Option (Object α) :=
  match o with
  | .node n => .node <$> n.assign? name v
  | .constructor c =>
    match name with
    | "name" => some (.constructor { c with name := v })
    | "is_void" => some (.constructor { c with isVoid := v })
    | _ => none
  | .registry r =>
    match name with
    | "void_tags" => some (.registry { r with voidTags := v })
    | _ => some (.registry { r with extras := Entries.set r.extras name v })
  | .element e => some (.element (e.assign name v))
  | .textNode data extras =>
    match name with
    | "data" => some (.textNode v extras)
    | _ => some (.textNode data (Entries.set extras name v))
  | .memoryDocument extras => some (.memoryDocument (Entries.set extras name v))
  | .recordingDocument r =>
    match name with
    | "calls" => some (.recordingDocument { r with listing := some v })
    | "trace" => some (.recordingDocument { r with tracing := v })
    | _ => some (.recordingDocument { r with extras := Entries.set r.extras name v })
  | .browserDocument p extras =>
    match name with
    | "document" => some (.browserDocument v extras)
    | _ => some (.browserDocument p (Entries.set extras name v))
  | .listener n refusal kind extras =>
    match name with
    | "name" => some (.listener v refusal kind extras)
    | _ => some (.listener n refusal kind (Entries.set extras name v))
  | .stranger n extras => some (.stranger n (Entries.set extras name v))
  | .error c arguments extras => some (.error c arguments (Entries.set extras name v))
  | .foreign typeName => some (.foreign typeName)
  | _ => none

end Object

namespace Atom

/-- What an atom can be asked to do. -/
def skills : Atom → List String
  | .text _ | .bytes _ => ["lower", "upper", "startswith", "endswith", "replace"]
  | _ => []

/-- The parts that an atom holds under names. -/
def parts : Atom → List (String × Atom)
  | .range p => [("start", .int p.start), ("stop", .int p.stop), ("step", .int p.step)]
  | _ => []

/-- What a name leads to. -/
def find (a : Atom) (name : String) : Except Fault (Found Atom) :=
  match Entries.get? a.parts name with
  | some part => .ok (.part part)
  | .none => if a.skills.contains name then .ok .skill else .error .missingMember

end Atom

namespace Term

/-- What a name leads to. -/
def find (t : Term) (name : String) : Except Fault (Found Term) :=
  match t with
  | .atom a => Found.map .atom <$> a.find name
  | .object _ o => o.find .atom name

/-- What comes back from a call that was not meant to be one. -/
inductive Reply where
  | nothing
  | node
  | error
deriving DecidableEq

/-- What comes back from calling a term with texts. -/
def reply : Term → Except Fault Reply
  | .object _ (.listener _ (some message) _ _) => .error (.refused message)
  | .object _ (.listener _ .none _ _) => .ok .nothing
  | .object _ (.constructor c) =>
    if !c.name.truthy then .error .emptyNodeName
    else if c.isVoid.isNone && !c.name.hashable then .error .unsuitable
    else .ok .node
  | .atom (.errorClass c) => if c = .conflict then .error .unsuitable else .ok .error
  | _ => .error .unsuitable

/-- What comes back from asking a term for something that it cannot do itself. -/
def ask (t : Term) (name : String) : Except Fault Reply := do
  match ← t.find name with
  | .part callee => callee.reply
  | .skill => throw .unsuitable

/-- Why a term has no entries: no reply can be gone through either. -/
def withoutEntries (t : Term) : Fault :=
  match t.ask "items" with
  | .error f => f
  | .ok .nothing => .notIterable "NoneType"
  | .ok _ => .unsuitable

/-- The entries of a map; nothing else has any. -/
def entries : Term → Except Fault (List (Term × Term))
  | .map _ es => .ok es
  | t => .error t.withoutEntries

@[simp] theorem entries_map (id : Nat) (es : List (Term × Term)) :
    entries (.map id es) = .ok es := rfl

end Term

end Markup
