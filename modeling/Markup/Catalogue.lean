import Markup.Calling
import Markup.Text.Identifier

/-!
# Registries

A registry maps tag names to constructors.  Entries are only ever added: registering a name
again gives the constructor that is there, unless the new call insists on another void flag.
The void flag of a name that is not registered is whether the registry's void tags hold it.

Constructors are found by name, or by a member name with the convention of keywords, so that
`del_` is `del` and `font_face` is `font-face`; names that start with an underscore are never
constructors, and the registry's own members come first.

`exports` lists the member names under which the tags of the default registry can be imported.
-/

namespace Markup

namespace Registry

variable {α : Type}

/-- The names in the order of registration. -/
def names (r : Registry α) : List α := Entries.keys r.constructors

/-- Adds a constructor at the end. -/
def insert (r : Registry α) (name made : α) : Registry α :=
  { r with constructors := r.constructors ++ [(name, made)] }

/-- The member name under which a tag is listed, if there is one. -/
def exportName? (tag : String) : Option String :=
  let name := String.ofList (tag.toList.map fun c => if c = '-' then '_' else c)
  if Text.isIdentifier name then some (if Text.isReserved name then name ++ "_" else name)
  else none

/-- The member names of some names, all of which have to be texts. -/
def exportsOf (names : List Term) : Except Fault (List String) := do
  let tags ← names.mapM fun t => match t with
    | .text tag => .ok tag
    | t => do
      discard <| t.ask "replace"
      throw .unsuitable
  return tags.filterMap exportName?

end Registry

namespace Operation

/-- The registry that a value refers to, and its number. -/
def registry (v : Value) : Operation (Nat × Registry Value) := do
  match ← objectOf v with
  | some (id, .registry r) => return (id, r)
  | _ => fail .missingMember

/-- The constructor that a value refers to. -/
def constructor (v : Value) : Operation (Constructor Value) := do
  match ← objectOf v with
  | some (_, .constructor c) => return c
  | _ => fail .missingMember

/-- The constructor of a name, if the name is registered. -/
def constructorOf? (r : Registry Value) (name : Value) : Operation (Option Value) := do
  let key ← readKey name
  return ((← getThe World).readKeys r.constructors).get? key

/-- Whether a name that is not registered is void. -/
def voidByDefault (r : Registry Value) (name : Value) : Operation Value := do
  return .bool (← ofExcept ((← read r.voidTags).contains (← read name)))

/--
Registers a name and gives its constructor.  A name that is registered keeps its constructor,
and a flag that contradicts it is refused before anything changes.
-/
def addElement (id : Nat) (name flag : Value) : Operation Value := do
  unless (← read name).truthy do fail .emptyElementName
  let (_, r) ← registry (.ref id)
  match ← constructorOf? r name with
  | some known =>
    let existing := (← constructor known).isVoid
    if flag = .none then return known
    if Term.eq (← read flag) (← read existing) then return known
    fail (.conflictingFlag name (← ofExcept (← read name).quoted) existing flag)
  | none =>
    let isVoid ← if flag = .none then voidByDefault r name else pure flag
    let made ← make (.constructor ⟨name, isVoid⟩)
    put id (.registry (r.insert name made))
    return made

/-- A new registry with the tags that a value holds, registered in order. -/
def makeRegistry (tags voidTags : Value) : Operation Value := do
  let id ← allocate (.registry ⟨voidTags, [], []⟩)
  eachItem (fun tag => discard <| addElement id tag .none) tags
  return .ref id

/-- A set of tags, none of which may be one that can change. -/
def makeTagSet (tags : List Value) : Operation Value := do
  let keys ← tags.mapM readKey
  let distinct : Entries Term Unit := Entries.ofList (keys.map fun key => (key, ()))
  make (.frozenSet (values distinct.keys))

/-- The void flag of a name, registered or not. -/
def isVoid (r : Registry Value) (name : Value) : Operation Value := do
  match ← constructorOf? r name with
  | some known => return (← constructor known).isVoid
  | none => voidByDefault r name

/-- The void flag that a registry answers with, unless it was given another answer. -/
def voidFlag (id : Nat) (name : Value) : Operation Value := do
  let (_, r) ← registry (.ref id)
  request (.ref id) "is_void" ⟨[name], []⟩ (isVoid r name)

/-- Makes a node of any name, with the conventions of constructors; the name comes first. -/
def create (id : Nat) (c : Call Value) : Operation Value := do
  let (name, rest) ← ofExcept (c.first "name")
  let arguments ← ofExcept (Arguments.ofCall ["self"] rest)
  arguments.construct name (← voidFlag id name)

/-- Makes a node of any name with the default registry; the name comes first. -/
def createElement (c : Call Value) : Operation Value := do
  let (name, rest) ← ofExcept (c.first "name")
  let a ← ofExcept (Arguments.ofCall [] rest)
  let passed : Call Value := ⟨[name, a.one, a.two, a.three], a.kw⟩
  request (.ref World.defaultRegistry) "create" passed (create World.defaultRegistry passed)

/-- Calls what has to be a skill with a single parameter. -/
def withOne (parameter : String) (c : Call Value) (k : Value → Operation Value) :
    Operation Value := do
  match ← ofExcept (c.fill [(parameter, none)]) with
  | [v] => k v
  | _ => fail .unsuitable

/-- The element that a registry has under a member name. -/
def elementNamed (r : Registry Value) (name : Value) : Operation Value := do
  match name with
  | .text s => ofExcept (r.element .atom s)
  | name =>
    discard <| demand name "startswith" [.text "_"]
    fail .unsuitable

/-- Makes a registry; without tags of its own it has the known ones, and likewise void tags. -/
def callRegistryClass (c : Call Value) : Operation Value := do
  let known ← make (.tuple (Vocabulary.knownTags.map .text))
  let voidByDefault := .ref World.defaultVoidTags
  match ← ofExcept (c.fill [("tags", some known), ("void_tags", some voidByDefault)]) with
  | [tags, voidTags] => makeRegistry tags voidTags
  | _ => fail .unsuitable

/-- What a registry does when it is asked for one of its skills. -/
def perform (id : Nat) (skill : String) (c : Call Value) : Operation Value := do
  let (_, r) ← registry (.ref id)
  match skill with
  | "add_element" =>
    match ← ofExcept (c.fill [("name", none), ("is_void", some .none)]) with
    | [name, flag] => addElement id name flag
    | _ => fail .unsuitable
  | "is_void" => withOne "name" c (isVoid r)
  | "create" => create id c
  | "__class__" => callRegistryClass c
  | "__getitem__" => withOne "name" c fun name => do
    return (← ofExcept ((← read (.ref id)).item (← read name))).toValue
  | "__contains__" => withOne "name" c fun name => do
    return .bool (← ofExcept ((← read (.ref id)).contains (← read name)))
  | "__getattr__" => withOne "attr" c (elementNamed r)
  | "__len__" => do
    discard <| ofExcept (c.fill [])
    return .int r.constructors.length
  | "__repr__" | "__str__" => do
    discard <| ofExcept (c.fill [])
    return .text (← ofExcept (← read (.ref id)).quoted)
  | _ => fail .unsuitable

/-- Asks a value for what registries do. -/
def askRegistry (v : Value) (skill : String) (c : Call Value) : Operation Value := do
  match v with
  | .ref id => request v skill c (perform id skill c)
  | v => request v skill c (fail .unsuitable)

/-! ## The listing of the default registry -/

/-- The names that the listing of the default registry has for itself. -/
def listingNames : List (String × Value) :=
  [("__name__", .text "hypertree.tags"), ("__package__", .text "hypertree")]

/-- The names of the listing that show nothing. -/
def listingInternals : List String :=
  ["_registry", "_Iterable", "__doc__", "__file__", "__loader__", "__spec__",
    "__builtins__", "__cached__", "__class__", "__dict__", "__eq__", "__hash__", "__init__",
    "__ne__", "__repr__", "__str__"]

/-- What the listing can be asked to do itself. -/
def listingSkills : List String := ["__getattr__", "__dir__", "_iskeyword"]

/-- Whether a value is a reserved word. -/
def isReservedWord (v : Value) : Operation Value := do
  match ← readKey v with
  | .text s => return .bool (Text.isReserved s)
  | _ => return .bool false

/-- The member names of all tags of the default registry. -/
def exports : Operation (List String) := do
  let (_, r) ← registry (.ref World.defaultRegistry)
  let w ← getThe World
  ofExcept (Registry.exportsOf (r.names.map w.read))

/-- What a name leads to in the default registry, for which the listing answers. -/
def passedName (name : String) : Operation (Found Value) := do
  try find (.ref World.defaultRegistry) name catch
    | f => if f.errorClass.isA .attribute then fail (.noSuchExport name) else fail f

/-- What a name of the listing leads to: its own members, then those of the default registry. -/
def exported (name : String) : Operation (Found Value) := do
  match Entries.get? listingNames name with
  | some own => return .part own
  | none =>
    if listingInternals.contains name then return .part (← make (.stranger name []))
    else if listingSkills.contains name then return .skill
    else passedName name

/-- The value that a name of the listing leads to. -/
def exportedMember (name : String) : Operation Value := do
  foundValue name (← exported name)

/-- Calls what a name of the listing leads to. -/
def callExported (name : String) (c : Call Value) : Operation Value := do
  match ← exported name, name with
  | .part callee, _ => callValue callee c
  | .skill, "__dir__" => do
    discard <| ofExcept (c.fill [])
    makeList ((← exports).map .text)
  | .skill, "__getattr__" => withOne "attr" c fun v => do
    match v with
    | .text s => do foundValue s (← passedName s)
    | _ => fail .unsuitable
  | .skill, "_iskeyword" => do
    unless c.kw.isEmpty do fail .unsuitable
    withOne "word" c isReservedWord
  | .skill, _ => perform World.defaultRegistry name c

end Operation

end Markup
