import Markup.Document.Browser
import Markup.Term.Items

/-!
# The store

A `World` is everything that operations can change: the objects, numbered in the order in which
they were made, what the host offers as the ambient document, and all that its browser was asked
for.  An `Operation` runs in a world and may fail; what it changed before it failed stays.

Objects are made by `Operation.allocate`, which takes the next free number, and changed one at a
time by `Operation.put`; nothing is ever removed.  `World.read` unfolds a value.  Unfolding is
bounded by the number of objects, which is enough for every value that does not contain itself.
What an object only keeps, and does not show, is unfolded by `World.glance` just so far that it
can be told how it would answer a call, so that an object may keep itself.  `World.read` treats
what is inside an element in the same way, since elements may be linked at will;
`World.readInside` unfolds it too.
-/

namespace Markup

/-- All that operations can change. -/
structure World where
  objects : Array (Object Value)
  /-- The page that can be found from anywhere, if there is one. -/
  page : Option Nat
  /-- Whether listeners can be handed to pages. -/
  proxies : Bool
  /-- The document over the page that was found first. -/
  ambient : Option Nat
  /-- Every call of a listener so far: its name and what it was called with. -/
  heard : Array (Value × List Value)
  /-- What answers requests to pages; this alone never changes. -/
  browser : Browser
  /-- All that the browser was asked for so far. -/
  journal : List Exchange
deriving Inhabited

/-- What runs in a world and may fail. -/
abbrev Operation (α : Type) : Type := ExceptT Fault (StateM World) α

namespace World

/-- The number of the default registry. -/
def defaultRegistry : Nat := 0

/-- The number of the set of tags that the default registry holds void. -/
def defaultVoidTags : Nat := Vocabulary.knownTags.length + 1

/-- The constructors of the default registry. -/
def knownConstructors : List (Constructor Value) :=
  Vocabulary.knownTags.map fun tag => ⟨.text tag, .bool (Vocabulary.voidTags.contains tag)⟩

/-- The default registry, whose constructors follow it in order. -/
def knownRegistry : Registry Value where
  voidTags := .ref defaultVoidTags
  constructors := (Vocabulary.knownTags.map Value.text).zip
    ((List.range' 1 Vocabulary.knownTags.length).map Value.ref)
  extras := []

/-- The world in which only the default registry and what it keeps have been made. -/
def initial : World where
  objects := (Object.registry knownRegistry :: (knownConstructors.map Object.constructor ++
    [Object.frozenSet (Vocabulary.voidTags.map Value.text)])).toArray
  page := none
  proxies := false
  ambient := none
  heard := #[]
  browser := .absent
  journal := []

/-- What stands for an object that lies too deep to be unfolded. -/
def tooDeep (id : Nat) : Term := .object id .unseen

/--
A value unfolded to a depth, with what objects only keep unfolded in the way given, and what is
inside elements in the same way if they are closed.
-/
def unfoldWith (w : World) (closed : Bool) (aside : Value → Term) : Nat → Value → Term
  | _, .atom a => .atom a
  | 0, .ref id => tooDeep id
  | depth + 1, .ref id =>
    match w.objects[id]? with
    | some o =>
      let shown := unfoldWith w closed aside depth
      .object id (o.mapParts shown (if closed then aside else shown) aside)
    | none => tooDeep id

@[simp] theorem unfoldWith_atom (w : World) (closed : Bool) (aside : Value → Term) (depth : Nat)
    (a : Atom) : w.unfoldWith closed aside depth (.atom a) = .atom a := by
  cases depth <;> rfl

@[simp] theorem toValue_unfoldWith (w : World) (closed : Bool) (aside : Value → Term)
    (depth : Nat) (v : Value) : (w.unfoldWith closed aside depth v).toValue = v := by
  cases v with
  | atom a => simp
  | ref id =>
    cases depth with
    | zero => rfl
    | succ depth =>
      simp only [unfoldWith]
      split <;> rfl

/-- A value of which only the number is known, if it is an object. -/
def stub : Value → Term
  | .atom a => .atom a
  | .ref id => tooDeep id

/-- How deep what an object only keeps is unfolded. -/
def glanceDepth : Nat := 4

/-- What an object only keeps, far enough to tell how it answers a call. -/
def glance (w : World) (v : Value) : Term := w.unfoldWith true stub glanceDepth v

/-- A value unfolded to a depth, with elements closed or not. -/
def unfold (w : World) (closed : Bool) (depth : Nat) (v : Value) : Term :=
  w.unfoldWith closed w.glance depth v

@[simp] theorem unfold_atom (w : World) (closed : Bool) (depth : Nat) (a : Atom) :
    w.unfold closed depth (.atom a) = .atom a := by
  simp [unfold]

@[simp] theorem toValue_unfold (w : World) (closed : Bool) (depth : Nat) (v : Value) :
    (w.unfold closed depth v).toValue = v := by
  simp [unfold]

/-- A depth that no value exceeds, unless it contains itself. -/
def depthBound (w : World) : Nat := w.objects.size + 1

/-- A value unfolded, with elements closed. -/
def read (w : World) (v : Value) : Term := w.unfold true w.depthBound v

@[simp] theorem toValue_read (w : World) (v : Value) : (w.read v).toValue = v := by
  simp [read]

/-- A value unfolded as a part of what `read` unfolds. -/
def readPart (w : World) (v : Value) : Term := w.unfold true w.objects.size v

/-- A value unfolded, with elements open. -/
def readInside (w : World) (v : Value) : Term := w.unfold false w.depthBound v

@[simp] theorem toValue_readInside (w : World) (v : Value) : (w.readInside v).toValue = v := by
  simp [readInside]

/-- Entries with their keys unfolded, so that keys can be compared. -/
def readKeys {β : Type} (w : World) (es : List (Value × β)) : Entries Term β :=
  es.map fun e => (w.read e.1, e.2)

/-- Entries with their keys folded back. -/
def valueKeys {β : Type} (es : Entries Term β) : List (Value × β) :=
  es.map fun e => (e.1.toValue, e.2)

@[simp] theorem valueKeys_readKeys {β : Type} (w : World) (es : List (Value × β)) :
    valueKeys (w.readKeys es) = es := by
  simp [valueKeys, readKeys, Function.comp_def]

/-- What the browser answers to a request now. -/
def reply (w : World) (r : PageRequest) : Except Fault Value :=
  (w.browser.answer w.journal r w.objects).1

/-- The world after a request to the browser. -/
def asked (w : World) (r : PageRequest) : World :=
  { w with
    objects := (w.browser.answer w.journal r w.objects).2
    journal := w.journal ++ [⟨r, w.reply r⟩] }

end World

namespace Operation

variable {α β : Type}

/-- Runs an operation in a world: its answer or its fault, and the world that it leaves. -/
def runIn (x : Operation α) (w : World) : Except Fault α × World := x.run.run w

/-- Fails. -/
def fail (f : Fault) : Operation α := throw f

/-- The answer of a computation that changes nothing. -/
def ofExcept (x : Except Fault α) : Operation α := ExceptT.mk (pure x)

/-- Makes an object and gives its number. -/
def allocate (o : Object Value) : Operation Nat :=
  modifyGetThe World fun w => (w.objects.size, { w with objects := w.objects.push o })

/-- Makes an object and gives the reference to it. -/
def make (o : Object Value) : Operation Value := do
  return .ref (← allocate o)

/-- The content of an object. -/
def get? (id : Nat) : Operation (Option (Object Value)) := do
  return (← getThe World).objects[id]?

/-- The object that a value refers to, with its number; an atom refers to none. -/
def objectOf (v : Value) : Operation (Option (Nat × Object Value)) := do
  match v with
  | .atom _ => return none
  | .ref id => return (← get? id).map (id, ·)

/-- Changes the content of an object. -/
def put (id : Nat) (o : Object Value) : Operation Unit :=
  modifyThe World fun w => { w with objects := w.objects.setIfInBounds id o }

/-- Changes the content of an object by a function. -/
def update (id : Nat) (f : Object Value → Object Value) : Operation Unit :=
  modifyThe World fun w => { w with objects := w.objects.modify id f }

/-- Asks the browser for something; that it was asked is noted whatever it answers. -/
def askBrowser (r : PageRequest) : Operation Value := do
  ofExcept (← modifyGetThe World fun w => (w.reply r, w.asked r))

/-- A value unfolded, with elements closed. -/
def read (v : Value) : Operation Term := do
  return (← getThe World).read v

/-- A value unfolded, with elements open. -/
def readInside (v : Value) : Operation Term := do
  return (← getThe World).readInside v

/-- A depth that no value exceeds, unless it contains itself. -/
def depthBound : Operation Nat := do
  return (← getThe World).depthBound

/-! ## What the basic operations do to a world -/

@[simp] theorem runIn_pure (a : α) (w : World) :
    (pure a : Operation α).runIn w = (.ok a, w) := rfl

@[simp] theorem runIn_fail (f : Fault) (w : World) :
    (fail f : Operation α).runIn w = (.error f, w) := rfl

@[simp] theorem runIn_ofExcept (x : Except Fault α) (w : World) :
    (ofExcept x).runIn w = (x, w) := rfl

/-- A fault ends a sequence of operations, and what was changed before it stays. -/
theorem runIn_bind (x : Operation α) (k : α → Operation β) (w : World) :
    (x >>= k).runIn w =
      match x.runIn w with
      | (.ok a, w) => (k a).runIn w
      | (.error f, w) => (.error f, w) := by
  simp only [runIn, ExceptT.run_bind, StateT.run_bind]
  rcases StateT.run (ExceptT.run x) w with ⟨r, w'⟩
  cases r <;> rfl

@[simp] theorem runIn_allocate (o : Object Value) (w : World) :
    (allocate o).runIn w = (.ok w.objects.size, { w with objects := w.objects.push o }) := rfl

@[simp] theorem runIn_make (o : Object Value) (w : World) :
    (make o).runIn w =
      (.ok (.ref w.objects.size), { w with objects := w.objects.push o }) := rfl

@[simp] theorem runIn_get? (id : Nat) (w : World) :
    (get? id).runIn w = (.ok w.objects[id]?, w) := rfl

@[simp] theorem runIn_objectOf_atom (a : Atom) (w : World) :
    (objectOf (.atom a)).runIn w = (.ok none, w) := rfl

@[simp] theorem runIn_objectOf_ref (id : Nat) (w : World) :
    (objectOf (.ref id)).runIn w = (.ok (w.objects[id]?.map (id, ·)), w) := rfl

@[simp] theorem runIn_put (id : Nat) (o : Object Value) (w : World) :
    (put id o).runIn w = (.ok (), { w with objects := w.objects.setIfInBounds id o }) := rfl

@[simp] theorem runIn_update (id : Nat) (f : Object Value → Object Value) (w : World) :
    (update id f).runIn w = (.ok (), { w with objects := w.objects.modify id f }) := rfl

@[simp] theorem runIn_askBrowser (r : PageRequest) (w : World) :
    (askBrowser r).runIn w = (w.reply r, w.asked r) := rfl

@[simp] theorem runIn_read (v : Value) (w : World) :
    (read v).runIn w = (.ok (w.read v), w) := rfl

@[simp] theorem runIn_readInside (v : Value) (w : World) :
    (readInside v).runIn w = (.ok (w.readInside v), w) := rfl

/-! ## Lists and maps -/

/-- A new list. -/
def makeList (items : List Value) : Operation Value := make (.list items)

/-- A new map. -/
def makeMap (entries : List (Value × Value)) : Operation Value := make (.map entries)

/-- The values that some terms unfold. -/
def values (ts : List Term) : List Value := ts.map Term.toValue

/-- A value unfolded as a key; what can change in place is no key. -/
def readKey (key : Value) : Operation Term := do
  ofExcept (← read key).asKey

/-- Sets what is held under a key of a map in place.  Keys are compared unfolded. -/
def setKey (id : Nat) (entries : List (Value × Value)) (key value : Value) : Operation Unit := do
  let k ← readKey key
  let known := (← getThe World).readKeys entries
  put id (.map (World.valueKeys (known.set k value)))

/-- Sets what is held at a position, in place. -/
def setPosition {γ : Type} (items : List γ) (position : Term) (item : γ) :
    Except Fault (List γ) :=
  match position.toInt? with
  | none => .error .unsuitable
  | some i =>
    match placeOf? items.length i with
    | some place => .ok (items.set place item)
    | none => .error .outOfRange

/-- Sets what a value holds at a position or under a key, in place. -/
def setItem (target key value : Value) : Operation Unit := do
  match ← objectOf target with
  | some (id, .map entries) => setKey id entries key value
  | some (id, .list items) =>
    put id (.list (← ofExcept (setPosition items (← read key) value)))
  | some (id, .buffer bytes) =>
    let position ← read key
    if position.toInt?.isNone then fail .unsuitable
    let byte ← ofExcept (← read value).toByte
    put id (.buffer (← ofExcept (setPosition bytes position byte)))
  | _ => fail .unsuitable

end Operation

end Markup
