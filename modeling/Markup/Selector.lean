import Markup.Store

/-!
# Selectors

A selector such as `#main.wide.dark` names an id and classes.  Every text has one decomposition
into what stands before the first marker and one segment per marker, the segment reaching to the
next marker or to the end; `decompose` computes it.  The text before the first marker means
nothing and empty segments are skipped, so `segments` lists the others; the last segment of an
id is the id and all segments of classes are the classes.

The decomposition is defined over items of any type, because a list of values can be scanned
too: its items are compared with the markers, and its segments are lists.
-/

namespace Markup

namespace Selector

/-- What a segment of a selector names. -/
inductive Marker where
  | id
  | className
deriving DecidableEq

namespace Marker

/-- The character that starts a segment. -/
def char : Marker → Char
  | .id => '#'
  | .className => '.'

/-- The marker that a character is. -/
def ofChar? (c : Char) : Option Marker :=
  if c = '#' then some .id else if c = '.' then some .className else none

@[simp] theorem ofChar?_char (m : Marker) : ofChar? m.char = some m := by cases m <;> rfl

/-- The marker that a value is. -/
def ofTerm? (t : Term) : Option Marker :=
  match t.text? with
  | some "#" => some .id
  | some "." => some .className
  | _ => none

end Marker

/-- What stands before the first marker, and each marker with what follows it. -/
def decompose {α : Type} (marker? : α → Option Marker) : List α → List α × List (Marker × List α)
  | [] => ([], [])
  | c :: cs =>
    let (first, rest) := decompose marker? cs
    match marker? c with
    | some m => ([], (m, first) :: rest)
    | none => (c :: first, rest)

/-- The segments that are not empty, each with its marker. -/
def segments {α : Type} (marker? : α → Option Marker) (cs : List α) : List (Marker × List α) :=
  (decompose marker? cs).2.filter fun e => !e.2.isEmpty

/-- What some segments name: the last id and all classes in order. -/
structure Naming (α : Type) where
  id : Option α
  classes : List α
deriving DecidableEq

/-- The naming of segments read from left to right. -/
def Naming.ofSegments {α : Type} (ss : List (Marker × α)) : Naming α where
  id := (ss.filterMap fun e => if e.1 = .id then some e.2 else none).getLast?
  classes := ss.filterMap fun e => if e.1 = .className then some e.2 else none

/-- The segments of a selector text. -/
def scan (s : String) : List (Marker × String) :=
  (segments Marker.ofChar? s.toList).map fun e => (e.1, String.ofList e.2)

/-- What a selector text names. -/
def parse (s : String) : Naming String := Naming.ofSegments (scan s)

/--
The segments of any value that has items.  Segments of a list are lists and segments of a tuple
are tuples; other values have items but no segments to cut out.
-/
def scanValue (v : Value) : Operation (List (Marker × Value)) := do
  let t ← Operation.read v
  match t with
  | .text s => return (scan s).map fun e => (e.1, .text e.2)
  | _ =>
    let items ← Operation.ofExcept t.items
    unless Term.allHashable items do Operation.fail .unsuitable
    (segments Marker.ofTerm? items).mapM fun e => do
      match t with
      | .list .. => return (e.1, ← Operation.makeList (Operation.values e.2))
      | .tuple .. => return (e.1, ← Operation.make (.tuple (Operation.values e.2)))
      | _ => Operation.fail .unsuitable

/-- What any value that has items names. -/
def parseValue (v : Value) : Operation (Naming Value) := do
  return Naming.ofSegments (← scanValue v)

end Selector

end Markup
