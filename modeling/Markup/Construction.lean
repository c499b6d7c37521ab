import Markup.CallForm

/-!
# Making nodes

Every node comes from `makeNode`, which takes its collections by reference and makes new ones
for those that are missing.  `construct` is what constructors do: it finds the roles of the
arguments, normalises the attributes, puts the keywords over them, and makes a node whose
collections are all new objects, whatever the arguments were.
-/

namespace Markup

/-- The fields that a node can be given; a missing one gets its default. -/
structure NodeFields where
  isVoid : Option Value := none
  id : Option Value := none
  classes : Option Value := none
  style : Option Value := none
  listeners : Option Value := none
  attrs : Option Value := none
  content : Option Value := none
  children : Option Value := none

namespace Operation

/-- A collection that was given, or a new one if it is missing. -/
def orMake (given : Option Value) (o : Object Value) : Operation Value :=
  match given with
  | none | some .none => make o
  | some v => return v

/-- The void flag of a name where none was given. -/
def defaultVoid (name : Value) : Operation Value := do
  match ← readKey name with
  | .text s => return .bool (Vocabulary.voidTags.contains s)
  | _ => return .bool false

/-- A flag that was given, or the default one if it is missing. -/
def voidOr (given : Option Value) (name : Value) : Operation Value :=
  match given with
  | none | some .none => defaultVoid name
  | some v => return v

/--
Makes a node.  Collections are kept by reference; a missing id or style stays missing, and the
void flag is looked up if it is missing.
-/
def makeNode (name : Value) (f : NodeFields) : Operation Value := do
  unless (← read name).truthy do fail .emptyNodeName
  let isVoid ← voidOr f.isVoid name
  let classes ← orMake f.classes (.list [])
  let listeners ← orMake f.listeners (.map [])
  let attrs ← orMake f.attrs (.map [])
  let children ← orMake f.children (.list [])
  make (.node {
    name, isVoid, classes, listeners, attrs, children,
    id := f.id.getD .none
    style := f.style.getD .none
    content := f.content.getD (.text "") })

/-- Making a node of some name by its fields alone is always refused. -/
def makeNodeDirectly (name : Value) : Operation Value := do
  fail (.directConstruction (← ofExcept (← read name).quoted))

/-- The value of a text that may be missing. -/
def textOrNone : Option String → Value
  | none => .none
  | some s => .text s

/-- A new map for a style, if there is one. -/
def makeStyle : Option Style → Operation Value
  | none => return .none
  | some style => makeMap (style.map fun e => (.text e.1, .text e.2))

/-- A new map of new lists for the listeners by event. -/
def makeListeners (listeners : Entries String (List Term)) : Operation Value := do
  let entries ← listeners.mapM fun e => do
    return (Value.text e.1, ← makeList (values e.2))
  makeMap entries

/-- A new map for plain attributes. -/
def makeAttrs (attrs : Entries Term AttributeValue) : Operation Value :=
  makeMap (attrs.map fun e => (e.1.toValue, .atom e.2.toAtom))

/--
What gives the attributes of a call: the second argument if it is a map, or else the first one if
it is a text or a map, or else a new map.
-/
def attributesOf (one two : Value) : Operation Value := do
  if (Roles.secondAttributes? (← read two)).isSome then return two
  if (Roles.firstAttributes? (← read one)).isSome then return one
  makeMap []

/--
The roles of three arguments as values: what gives the attributes, the text of the content, and a
new list of the children.
-/
def resolve (one two three : Value) : Operation (Value × Value × Value) := do
  let roles ← ofExcept (Roles.resolve (← read one) (← read two) (← read three))
  let attributes ← attributesOf one two
  return (attributes, .text roles.content, ← makeList (values roles.children))

/-- A node with normalised attributes, all its collections new. -/
def makeNodeWith (name isVoid : Value) (s : AttributeSet) (content : String)
    (children : List Term) : Operation Value := do
  let classes ← makeList (values s.classes)
  let style ← makeStyle s.style
  let listeners ← makeListeners s.listeners
  let attrs ← makeAttrs s.attrs
  let children ← makeList (values children)
  makeNode name {
    isVoid := some isVoid
    id := some (textOrNone s.id)
    classes := some classes
    style := some style
    listeners := some listeners
    attrs := some attrs
    content := some (.text content)
    children := some children }

end Operation

/--
What a call describes: its normalised attributes with the keywords put over them, its content
and its children.
-/
def describe (one two three : Term) (kw : List (String × Term)) :
    Except Fault (AttributeSet × String × List Term) := do
  let roles ← Roles.resolve one two three
  let base ← AttributeSet.ofSource roles.attributes
  let s ← if kw.isEmpty then pure base else do pure (base.merge (← AttributeSet.ofKeywords kw))
  return (s, roles.content, roles.children)

/-- Makes the node that a call of a constructor describes.  Keywords come in a map. -/
def construct (name isVoid one two three : Value) (kw : List (String × Value)) :
    Operation Value := do
  let w ← getThe World
  let (s, content, children) ← Operation.ofExcept <|
    describe (w.read one) (w.read two) (w.read three) (kw.map fun e => (e.1, w.readPart e.2))
  Operation.makeNodeWith name isVoid s content children

/-- The arguments of a call whose parameters `taken` are already filled. -/
structure Arguments where
  one : Value
  two : Value
  three : Value
  kw : List (String × Value)

namespace Arguments

/-- Matches a call with the parameters of a constructor, of which `taken` are already filled. -/
def ofCall (taken : List String) (c : Call Value) : Except Fault Arguments := do
  let (one, two, three, kw) ← c.bind taken
  return ⟨one.getD .none, two.getD .none, three.getD .none, kw⟩

/-- Makes the node that the arguments describe. -/
def construct (a : Arguments) (name isVoid : Value) : Operation Value :=
  Markup.construct name isVoid a.one a.two a.three a.kw

end Arguments

end Markup
