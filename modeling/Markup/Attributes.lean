import Markup.Selector
import Markup.Style

/-!
# Attributes

The attributes of a call are a selector or a map.  Either is normalised into an `AttributeSet`,
which keeps apart what a node stores apart: the id, the classes, the style, the listeners by
event, and the plain attributes.

A map is read entry by entry.  The keys `id`, `class` and `style` have their own rules; a key
that begins with `on`, goes on, and holds something to call, or a sequence of nothing else,
registers listeners; every other entry is a plain attribute, whose value is kept if it is a truth
value or missing and made a text otherwise.

`merge` puts one set over another: the later id wins if there is one, classes and listeners
accumulate, styles and plain attributes are updated in place.
-/

namespace Markup

/-- The value of a plain attribute. -/
inductive AttributeValue where
  | none
  | flag (b : Bool)
  | text (s : String)
deriving DecidableEq

/-- The value as an atom. -/
def AttributeValue.toAtom : AttributeValue → Atom
  | .none => .none
  | .flag b => .bool b
  | .text s => .text s

/-- Normalised attributes. -/
structure AttributeSet where
  id : Option String
  classes : List Term
  style : Option Style
  listeners : Entries String (List Term)
  attrs : Entries Term AttributeValue

/-- What a call gives for its attributes. -/
inductive AttributeSource where
  | selector (s : String)
  | entries (es : List (Term × Term))

namespace AttributeSet

/-- No attributes at all. -/
def empty : AttributeSet := ⟨none, [], none, [], []⟩

/-- The attributes that a selector names. -/
def ofSelector (s : String) : AttributeSet :=
  let naming := Selector.parse s
  { empty with id := naming.id, classes := naming.classes.map .text }

/-- The classes that a value stands for. -/
def classesOf (t : Term) : Except Fault (List Term) :=
  match t with
  | .none => .ok []
  | .text s => .ok ((Text.words s).map .text)
  | .list _ items => .ok items
  | .tuple _ items => .ok items
  | t => do return [.text (← t.plain)]

/-- The style that a value stands for. -/
def styleOf (t : Term) : Except Fault (Option Style) :=
  match t with
  | .none => .ok none
  | .text s => .ok (some (Style.read s))
  | t => do
    let es ← t.entries
    let pairs ← es.mapM fun e => do
      let property ← e.1.plain
      return (property, ← e.2.plain)
    return some (Entries.ofList pairs)

/-- Whether a key begins like a listener key and goes on.  Only what has a length can be asked. -/
def beginsListener (key : Term) : Except Fault Bool := do
  if (← key.count) ≤ Vocabulary.listenerMark.length then return false
  match key with
  | .text s => return Vocabulary.listenerMark.toList.isPrefixOf s.toList
  | t =>
    if t.bytes?.isSome then throw .unsuitable
    return (← t.ask "startswith") != .nothing

/-- The event that a listener key names; only texts can be cut. -/
def eventOf (key : Term) : Except Fault String :=
  match key with
  | .text s => .ok (String.ofList (s.toList.drop Vocabulary.listenerMark.length))
  | _ => .error .unsuitable

/-- The listeners that a value is: one to call, or a sequence of such that is not empty. -/
def callables (t : Term) : Option (List Term) :=
  if t.callable then some [t]
  else match t with
    | .list _ items => if !items.isEmpty && items.all Term.callable then some items else none
    | .tuple _ items => if !items.isEmpty && items.all Term.callable then some items else none
    | _ => none

/-- The listeners of an entry, if it registers any. -/
def listenersOf (key value : Term) : Except Fault (Option (List Term)) := do
  if ← beginsListener key then return callables value else return none

/-- What a plain attribute keeps of a value. -/
def attributeValueOf (t : Term) : Except Fault AttributeValue :=
  match t with
  | .none => .ok .none
  | .atom (.bool b) => .ok (.flag b)
  | t => do return .text (← t.plain)

/-- Takes one entry of a map into account. -/
def addEntry (s : AttributeSet) (key value : Term) : Except Fault AttributeSet := do
  if key == .text "id" then
    if value.isNone then return { s with id := none }
    return { s with id := some (← value.plain) }
  else if key == .text "class" then
    return { s with classes := ← classesOf value }
  else if key == .text "style" then
    return { s with style := ← styleOf value }
  else
    match ← listenersOf key value with
    | some fns => return { s with listeners := s.listeners.extend (← eventOf key) fns }
    | none => return { s with attrs := s.attrs.set key (← attributeValueOf value) }

/-- The attributes that the entries of a map describe. -/
def ofEntries (es : List (Term × Term)) : Except Fault AttributeSet :=
  es.foldlM (fun s e => s.addEntry e.1 e.2) empty

/-- The attributes that a call gives. -/
def ofSource : AttributeSource → Except Fault AttributeSet
  | .selector s => .ok (ofSelector s)
  | .entries es => ofEntries es

/-- The attributes that a value describes: a text is a selector, anything else has to be a map. -/
def ofTerm (t : Term) : Except Fault AttributeSet :=
  match t with
  | .text s => .ok (ofSelector s)
  | t => do ofEntries (← t.entries)

/-- The styles of two sets put together. -/
def mergeStyle : Option Style → Option Style → Option Style
  | base, none => base
  | none, later => later
  | some base, some later => some (base.update later)

/-- One set over another. -/
def merge (base later : AttributeSet) : AttributeSet where
  id := later.id.or base.id
  classes := base.classes ++ later.classes
  style := mergeStyle base.style later.style
  listeners := base.listeners.extendAll later.listeners
  attrs := base.attrs.update later.attrs

/-- The attributes that keywords describe; of two with the same key the last one counts. -/
def ofKeywords (kw : List (String × Term)) : Except Fault AttributeSet :=
  let renamed := Entries.ofList (kw.map fun e => (Vocabulary.keyOfKeyword e.1, e.2))
  ofEntries (renamed.map fun e => (.text e.1, e.2))

end AttributeSet

end Markup
