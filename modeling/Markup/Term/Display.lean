import Markup.Term.Members

/-!
# The text of a term

`Term.display` writes a value the way reports and coerced attributes show it: `quoted` puts a
text between quotes, otherwise a text stands for itself; inside lists, maps and the like every
item is quoted.  A list that is met again inside of itself, at any depth, is left out there, and so
are tuples, maps and frozen sets.

A node shows as one line: its name, its id, its classes, a sign that it has a style, how many
listeners each event has, the names of its attributes, the beginning of its content, and for
each child a name or the beginning of a text.  Showing a node fails where its fields are not of
the types that the line needs; that there is something to go through for children is settled
first, and the name is shown last.  `nodeLine true` is the opening line of an outline: the name
comes first, styles and attribute values are shown in full, and no children.
-/

namespace Markup.Term

/-- The greatest length of a text in a one-line summary. -/
def summaryLimit : Nat := 32

/-- What marks a text that was cut, or a value left out. -/
def ellipsis : String := "…"

/--
A text cut to a limit: if it is longer, what stands before the last allowed place, and the
ellipsis.  A limit below one leaves out characters at the end instead.
-/
def cutTo (limit : Int) (s : String) : String :=
  if (s.length : Int) ≤ limit then s
  else
    let kept := if limit < 1 then s.length - (1 - limit).toNat else (limit - 1).toNat
    String.ofList (s.toList.take kept) ++ ellipsis

/-- A text cut to the limit of summaries. -/
def cut (s : String) : String := cutTo summaryLimit s

/-- The texts with commas between them. -/
def commaSeparated (ss : List String) : String := ", ".intercalate ss

/-- The parenthesised texts of a tuple; a single one keeps its comma. -/
def tupleText : List String → String
  | [s] => "(" ++ s ++ ",)"
  | ss => "(" ++ commaSeparated ss ++ ")"

/-- The word for a child that is a node: its name, which has to be a text. -/
def nameWord (n : Node Term) : Except Fault String :=
  match n.name with
  | .text name => .ok name
  | _ => .error .unsuitable

/-- A word of a summary, where there is something to say: what leads it, then what is shown. -/
def wordIf (said : Bool) (lead : String) (shown : Except Fault String) : Except Fault String :=
  if said then do return lead ++ (← shown) else return ""

/-- A word for each of some atoms. -/
def atomWords : List Term → String
  | [] => ""
  | .atom a :: ts => " " ++ cut (a.display true) ++ atomWords ts
  | _ :: ts => atomWords ts

mutual

/-- The text of a term; `around` are the numbers of the lists and the like that it is inside of. -/
def display (around : List Nat) (quoted : Bool) : Term → Except Fault String
  | .atom a => .ok (a.display quoted)
  | .list id items => do
    if around.contains id then return "[...]"
    return "[" ++ commaSeparated (← displayAll (id :: around) items) ++ "]"
  | .tuple id items => do
    if around.contains id then return "(...)"
    return tupleText (← displayAll (id :: around) items)
  | .map id entries => do
    if around.contains id then return "\x7b...\x7d"
    return "\x7b" ++ commaSeparated (← displayEntries (id :: around) entries) ++ "\x7d"
  | .object id (.frozenSet items) => do
    if around.contains id then return "frozenset(...)"
    let shown ← displayAll (id :: around) items
    return if shown.isEmpty then "frozenset()"
      else "frozenset(\x7b" ++ commaSeparated shown ++ "\x7d)"
  | .object _ (.buffer bytes) => .ok ("bytearray(" ++ Text.quoteBuffer bytes ++ ")")
  | .object _ .notANumber => .ok "nan"
  | .object _ (.listener name ..) => do
    return "<fn " ++ (← display around false name) ++ ">"
  | .object _ (.stranger name _) => .ok ("<opaque " ++ name ++ ">")
  | .object _ .unseen => .error .endless
  | .object _ (.error c arguments _) => do
    let shown ← displayAll around arguments
    if quoted then return c.name ++ "(" ++ commaSeparated shown ++ ")"
    match arguments with
    | [] => return ""
    | [argument] => display around (c.isA .key) argument
    | _ => return tupleText shown
  | .node _ n => do
    return (if quoted then "Node" else "") ++ (← nodeLine around false n) ++ ">"
  | .object _ (.constructor c) => constructorText around c
  | .object _ (.registry r) =>
    .ok ("ElementRegistry(<" ++ toString r.constructors.length ++ " tags>)")
  | .object _ (.element e) => elementText around e
  | .object _ (.textNode data _) => do
    return "MemoryText(" ++ (← display around true data) ++ ")"
  | .object _ o => .ok ("<" ++ objectTypeName o ++ " object>")

/-- The quoted texts of some terms. -/
def displayAll (around : List Nat) : List Term → Except Fault (List String)
  | [] => .ok []
  | t :: ts => do
    let s ← display around true t
    return s :: (← displayAll around ts)

/-- The entries of a map, keys and values quoted. -/
def displayEntries (around : List Nat) : List (Term × Term) → Except Fault (List String)
  | [] => .ok []
  | (k, v) :: es => do
    let key ← display around true k
    let value ← display around true v
    return (key ++ ": " ++ value) :: (← displayEntries around es)

/-- A constructor by its name and its flag. -/
def constructorText (around : List Nat) : Constructor Term → Except Fault String
  | ⟨name, isVoid⟩ => do
    let name ← display around true name
    return "ElementConstructor(" ++ name ++ ", is_void=" ++ (← display around false isVoid) ++ ")"

/-- An element by its name. -/
def elementText (around : List Nat) : Element Term → Except Fault String
  | ⟨_, name, _, _, _, _, _, _, _⟩ => do
    return "MemoryElement(" ++ (← display around true name) ++ ")"

/--
The summary of a node without its closing bracket: `full` shows styles and attribute values
and leaves the children out.
-/
def nodeLine (around : List Nat) (full : Bool) : Node Term → Except Fault String
  | ⟨name, _, id, classes, style, listeners, attrs, content, children⟩ => do
    let tag := display around false name
    if full then discard tag
    else if children.length?.isNone then throw (.notIterable children.typeName)
    let idWord ← wordIf (!id.isNone) " id=" (display around true id)
    let classWord ← wordIf classes.truthy " class=" (display around true classes)
    let styleWord ← wordIf (!style.isNone) " style="
      (if full then display around true style else pure ellipsis)
    let listenerText ← listenerWords around listeners
    let attrText ← attrWords around full attrs
    let contentWord ← wordIf content.truthy " " (do return cut (← display around true content))
    let childText ← if full then pure "" else childWords around children
    return "<" ++ (← tag) ++ ":" ++ idWord ++ classWord ++ styleWord ++ listenerText ++ attrText ++
      contentWord ++ childText

/-- How many listeners each event has. -/
def listenerWords (around : List Nat) : Term → Except Fault String
  | .map _ entries => listenerEntryWords around entries
  | t => .error t.withoutEntries

/-- How many listeners each event of some entries has. -/
def listenerEntryWords (around : List Nat) : List (Term × Term) → Except Fault String
  | [] => .ok ""
  | (event, listeners) :: es => do
    let event ← display around false event
    let n ← listeners.count
    return " on" ++ event ++ "=" ++ toString n ++ (← listenerEntryWords around es)

/-- The attributes, with or without their values. -/
def attrWords (around : List Nat) (full : Bool) : Term → Except Fault String
  | .map _ entries => attrEntryWords around full entries
  | t => .error t.withoutEntries

/-- The attributes of some entries. -/
def attrEntryWords (around : List Nat) (full : Bool) : List (Term × Term) → Except Fault String
  | [] => .ok ""
  | (k, v) :: es => do
    let key ← display around false k
    let value ← if full then display around true v else pure ellipsis
    return " " ++ key ++ "=" ++ value ++ (← attrEntryWords around full es)

/-- A word for each child. -/
def childWords (around : List Nat) : Term → Except Fault String
  | .list _ items => itemWords around items
  | .tuple _ items => itemWords around items
  | .map _ entries => keyWords around entries
  | t =>
    match t.items? with
    | some ts => .ok (atomWords ts)
    | .none => .error (.notIterable t.typeName)

/-- A word for each item: the name of a node, the beginning of anything else. -/
def itemWords (around : List Nat) : List Term → Except Fault String
  | [] => .ok ""
  | t :: ts => do
    let word ← match t.node? with
      | some n => nameWord n
      | .none => do pure (cut (← display around true t))
    return " " ++ word ++ (← itemWords around ts)

/-- A word for each key of a map. -/
def keyWords (around : List Nat) : List (Term × Term) → Except Fault String
  | [] => .ok ""
  | (k, _) :: es => do
    let word ← match k.node? with
      | some n => nameWord n
      | .none => do pure (cut (← display around true k))
    return " " ++ word ++ (← keyWords around es)

end

/-- The text that a term is coerced to. -/
def plain (t : Term) : Except Fault String := display [] false t

/-- The text that shows a term in a report. -/
def quoted (t : Term) : Except Fault String := display [] true t

@[simp] theorem plain_text (s : String) : plain (.text s) = .ok s := by simp [plain, display]

end Markup.Term
