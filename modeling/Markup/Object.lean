import Markup.Document.Call
import Markup.Entries

/-!
# Objects and terms

`Object α` is the content of an object whose parts are of type `α`.  The store holds objects
over `Value`, whose parts refer to other objects by number.  A `Term` is a value unfolded: an
atom, or an object with its number and with terms for parts.  So a term shows at once what a
value looks like at one moment, and which of its parts are the same object.

An object shows some of its parts, and others lie aside: the document of an element, the
constructors of a registry, and the members that objects of some kinds can be given beside their
own.  Between the two are the parts inside an element, of which only its text shows anything.
`Object.mapParts` is what unfolding does to one object, where the parts of each sort can be
treated in their own way, and `Term.toValue` folds a term back.
-/

namespace Markup

/--
A markup element.  Nothing constrains its fields, because a node can be made with any values;
constructors keep to texts, lists and maps.
-/
structure Node (α : Type) where
  name : α
  isVoid : α
  id : α
  classes : α
  style : α
  listeners : α
  attrs : α
  content : α
  children : α
deriving DecidableEq

/-- The same node over other parts. -/
def Node.map {α β : Type} (f : α → β) (n : Node α) : Node β :=
  ⟨f n.name, f n.isVoid, f n.id, f n.classes, f n.style, f n.listeners, f n.attrs, f n.content,
    f n.children⟩

/-- Named parts over other parts. -/
def mapNamed {α β : Type} (f : α → β) (parts : List (String × α)) : List (String × β) :=
  parts.map fun e => (e.1, f e.2)

/-- An element of a document held in memory. -/
structure Element (α : Type) where
  /-- The document that is told of assignments. -/
  document : α
  name : α
  isVoid : α
  id : α
  className : α
  attributes : α
  listeners : α
  childNodes : α
  extras : List (String × α)
deriving DecidableEq

/--
The same element over other parts: it shows its name, its document and its extras lie aside, and
the rest is inside it.
-/
def Element.map {α β : Type} (f inside aside : α → β) (e : Element α) : Element β :=
  ⟨aside e.document, f e.name, inside e.isVoid, inside e.id, inside e.className,
    inside e.attributes, inside e.listeners, inside e.childNodes, mapNamed aside e.extras⟩

/-- Makes nodes of one tag. -/
structure Constructor (α : Type) where
  name : α
  isVoid : α
deriving DecidableEq

/-- The same constructor over other parts. -/
def Constructor.map {α β : Type} (f : α → β) (c : Constructor α) : Constructor β :=
  ⟨f c.name, f c.isVoid⟩

/-- The constructors of the registered tags by name, and what holds the names void by default. -/
structure Registry (α : Type) where
  voidTags : α
  constructors : List (α × α)
  extras : List (String × α)
deriving DecidableEq

/-- The same registry over other parts; all but its names lies aside. -/
def Registry.map {α β : Type} (f aside : α → β) (r : Registry α) : Registry β :=
  ⟨aside r.voidTags, r.constructors.map (Prod.map f aside), mapNamed aside r.extras⟩

/-- What a recording document has seen, and what it has written about it. -/
structure Recording (α : Type) where
  calls : Array DocumentCall
  /-- The list that calls are added to instead, once there is one. -/
  listing : Option α
  tracing : α
  trace : String
  extras : List (String × α)
deriving DecidableEq

/-- The same recording over other parts, which all lie aside. -/
def Recording.map {α β : Type} (aside : α → β) (r : Recording α) : Recording β :=
  ⟨r.calls, r.listing.map aside, aside r.tracing, r.trace, mapNamed aside r.extras⟩

/-- The content of an object over parts of type `α`. -/
inductive Object (α : Type) where
  | list (items : List α)
  | tuple (items : List α)
  | map (entries : List (α × α))
  /-- Items of which none equals another, and to which none can be added. -/
  | frozenSet (items : List α)
  /-- A sequence of bytes that can be changed. -/
  | buffer (bytes : List UInt8)
  /-- A float that is no number: it equals nothing, and as an item only itself. -/
  | notANumber
  /--
  Something to call, which may refuse with a message.  Two that are not the same object are equal if
  they are of one kind, as a method is whenever it is taken from the same object.
  -/
  | listener (name : α) (refusal : Option String) (kind : Option Nat) (extras : List (String × α))
  /-- An object of no known kind. -/
  | stranger (name : String) (extras : List (String × α))
  | error (c : ErrorClass) (arguments : List α) (extras : List (String × α))
  | node (n : Node α)
  | constructor (c : Constructor α)
  | registry (r : Registry α)
  | element (e : Element α)
  | textNode (data : α) (extras : List (String × α))
  | memoryDocument (extras : List (String × α))
  | recordingDocument (r : Recording α)
  | browserDocument (page : α) (extras : List (String × α))
  /-- A page, a node of one or anything else that a browser made: nothing is known but its type. -/
  | foreign (typeName : String)
  /-- An object of which nothing is looked at, as it lies too deep. -/
  | unseen
deriving DecidableEq

/--
The same object over other parts: `f` maps what an object shows of itself, `inside` what is inside
an element, and `aside` what an object only keeps.
-/
def Object.mapParts {α β : Type} (f inside aside : α → β) : Object α → Object β
  | .list items => .list (items.map f)
  | .tuple items => .tuple (items.map f)
  | .map entries => .map (entries.map (Prod.map f f))
  | .frozenSet items => .frozenSet (items.map f)
  | .buffer bytes => .buffer bytes
  | .notANumber => .notANumber
  | .listener name refusal kind extras => .listener (f name) refusal kind (mapNamed aside extras)
  | .stranger name extras => .stranger name (mapNamed aside extras)
  | .error c arguments extras => .error c (arguments.map f) (mapNamed aside extras)
  | .node n => .node (n.map f)
  | .constructor c => .constructor (c.map f)
  | .registry r => .registry (r.map f aside)
  | .element e => .element (e.map f inside aside)
  | .textNode data extras => .textNode (f data) (mapNamed aside extras)
  | .memoryDocument extras => .memoryDocument (mapNamed aside extras)
  | .recordingDocument r => .recordingDocument (r.map aside)
  | .browserDocument p extras => .browserDocument (aside p) (mapNamed aside extras)
  | .foreign typeName => .foreign typeName
  | .unseen => .unseen

/-- A value unfolded. -/
inductive Term where
  | atom (a : Atom)
  | object (id : Nat) (o : Object Term)

namespace Term

@[match_pattern] abbrev none : Term := .atom .none

@[match_pattern] abbrev text (s : String) : Term := .atom (.text s)

@[match_pattern] abbrev list (id : Nat) (items : List Term) : Term := .object id (.list items)

@[match_pattern] abbrev tuple (id : Nat) (items : List Term) : Term := .object id (.tuple items)

@[match_pattern] abbrev map (id : Nat) (entries : List (Term × Term)) : Term :=
  .object id (.map entries)

@[match_pattern] abbrev node (id : Nat) (n : Node Term) : Term := .object id (.node n)

/-- The value that a term unfolds. -/
def toValue : Term → Value
  | .atom a => .atom a
  | .object id _ => .ref id

@[simp] theorem toValue_atom (a : Atom) : (Term.atom a).toValue = .atom a := rfl

@[simp] theorem toValue_object (id : Nat) (o : Object Term) :
    (Term.object id o).toValue = .ref id := rfl

end Term

end Markup
