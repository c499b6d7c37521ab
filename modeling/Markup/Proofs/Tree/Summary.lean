import Markup.Proofs.Computation
import Markup.Proofs.Text.Quoted
import Markup.Proofs.Tree
import Markup.Term.Display

/-!
# What a tree is summarised as

A node is shown on one line in two ways: `Head.opening` is the opening line of an outline, with
styles and attribute values in full, and `Tree.summary` the short form, with a word for each child.
What shows a tree is displayed so (`nodeLine_opening`, `plain_of_shows`).

Most of what is shown is quoted.  Only names, events and the names of attributes stand as they
are; a tree is `Unbroken` if none of these has a newline, and then both ways are on one line
(`Head.Unbroken.onOneLine_opening`, `Tree.Unbroken.onOneLine_summary`).
-/

namespace Markup

open Text (OnOneLine quote onOneLine_quote)

/-! ## The words of a line -/

/-- A style as it is shown in full. -/
def Style.shown (s : Style) : String :=
  "\x7b" ++ Term.commaSeparated (s.map fun e => quote e.1 ++ ": " ++ quote e.2) ++ "\x7d"

namespace Head

variable (h : Head)

/-- The word for the id, if there is one. -/
def idWord : String := h.id.elim "" (" id=" ++ quote ·)

/-- The word for the classes, if there are any. -/
def classWord : String :=
  if h.classes.isEmpty then ""
  else " class=" ++ ("[" ++ Term.commaSeparated (h.classes.map quote) ++ "]")

/-- The word for the style, if there is one. -/
def styleWord (full : Bool) : String :=
  h.style.elim "" fun s => " style=" ++ if full then s.shown else Term.ellipsis

/-- The words for the events: how many listeners each has. -/
def listenerWords : String :=
  String.join (h.listeners.map fun e => " on" ++ e.1 ++ "=" ++ toString e.2.length)

/-- The words for the attributes, with or without their values. -/
def attrWords (full : Bool) : String :=
  String.join (h.attrs.map fun e =>
    " " ++ e.1 ++ "=" ++ if full then e.2.toAtom.display true else Term.ellipsis)

/-- The word for the text before the children, if there is any: the beginning of it. -/
def contentWord : String := if h.text == "" then "" else " " ++ Term.cut (quote h.text)

/-- What a line says of a node, its children apart. -/
def line (full : Bool) : String :=
  "<" ++ h.name ++ ":" ++ h.idWord ++ h.classWord ++ h.styleWord full ++ h.listenerWords ++
    h.attrWords full ++ h.contentWord

/-- The opening line of a node in an outline. -/
def opening : String := h.line true

end Head

/-- The word for a child: the name of a node, the beginning of a text. -/
def Tree.childWord : Tree → String
  | .text s => " " ++ Term.cut (quote s)
  | .node h _ => " " ++ h.name

/-- The one-line summary of a node. -/
def Head.summary (h : Head) (children : List Tree) : String :=
  h.line false ++ String.join (children.map Tree.childWord) ++ ">"

/-! ## What shows a node is displayed by its words -/

namespace Term

variable {n : Node Term} {h : Head}

theorem displayAll_texts (around : List Nat) (ss : List String) :
    displayAll around (ss.map .text) = .ok (ss.map quote) := by
  induction ss with
  | nil => simp [displayAll]
  | cons s ss ih => simp [displayAll, display, Atom.display, ih]

theorem displayEntries_terms (around : List Nat) (s : Style) :
    displayEntries around s.terms = .ok (s.map fun e => quote e.1 ++ ": " ++ quote e.2) := by
  rw [Style.terms]
  induction s with
  | nil => simp [displayEntries]
  | cons e s ih => simp [displayEntries, display, Atom.display, ih]

theorem idWord_of_shows (s : n.Shows h) :
    wordIf (!n.id.isNone) " id=" (display [] true n.id) = .ok h.idWord := by
  rw [s.id, Head.idWord]
  cases h.id <;> simp [wordIf, ofText?, isNone, display, Atom.display]

theorem classWord_of_shows (s : n.Shows h) :
    wordIf n.classes.truthy " class=" (display [] true n.classes) = .ok h.classWord := by
  obtain ⟨id, hclasses⟩ := s.classes
  have htruthy : (list id (h.classes.map .text)).truthy = !h.classes.isEmpty := by
    cases h.classes <;> simp [truthy, length?]
  rw [hclasses, htruthy, Head.classWord]
  cases h.classes.isEmpty <;> simp [wordIf, display, displayAll_texts]

theorem styleWord_of_shows (s : n.Shows h) (full : Bool) :
    wordIf (!n.style.isNone) " style=" (if full then display [] true n.style else pure ellipsis) =
      .ok (h.styleWord full) := by
  have hstyle := s.style
  rw [Head.styleWord]
  cases hs : h.style with
  | none =>
    rw [hs, ShowsStyle] at hstyle
    simp [hstyle, wordIf, isNone]
  | some style =>
    rw [hs, ShowsStyle] at hstyle
    obtain ⟨id, hmap⟩ := hstyle
    cases full <;>
      simp [hmap, wordIf, isNone, display, displayEntries_terms, Style.shown]

theorem listenerWords_of_shows (s : n.Shows h) :
    listenerWords [] n.listeners = .ok h.listenerWords := by
  obtain ⟨id, rows, hmap, hall⟩ := s.listeners
  rw [hmap, listenerWords, Head.listenerWords]
  clear hmap
  generalize h.listeners = listeners at hall ⊢
  induction hall with
  | nil => simp [listenerEntryWords]
  | @cons row l rows listeners hrow _ ih =>
    obtain ⟨event, held⟩ := row
    obtain ⟨rfl, cell, items, rfl, hitems⟩ := hrow
    have hcount : (list cell items).count = .ok l.2.length := by
      simp [count, length?, ← hitems]
    simp [listenerEntryWords, display, Atom.display, hcount, ih, String.append_assoc]

theorem attrWords_of_shows (s : n.Shows h) (full : Bool) :
    attrWords [] full n.attrs = .ok (h.attrWords full) := by
  obtain ⟨id, hmap⟩ := s.attrs
  rw [hmap, attrWords, Head.attrWords]
  induction h.attrs with
  | nil => simp [attrEntryWords]
  | cons e attrs ih =>
    cases full <;> simp [attrEntryWords, display, Atom.display, ih, String.append_assoc]

theorem contentWord_of_shows (s : n.Shows h) :
    wordIf n.content.truthy " " (do return cut (← display [] true n.content)) =
      .ok h.contentWord := by
  rw [s.content, Head.contentWord, Head.text]
  cases h.content with
  | none => simp [wordIf, ofText?, truthy, Atom.truthy]
  | some c =>
    by_cases hc : c = "" <;>
      simp [hc, wordIf, ofText?, truthy, Atom.truthy, display, Atom.display]

/-- A line says of a node what its fields are, and of the children only what the summary does. -/
theorem nodeLine_of_shows (s : n.Shows h) (full : Bool) (word : String)
    (hchildren : full = false →
      n.children.length?.isNone = false ∧ childWords [] n.children = .ok word) :
    nodeLine [] full n = .ok (h.line full ++ if full then "" else word) := by
  have hid := idWord_of_shows s
  have hclass := classWord_of_shows s
  have hstyle := styleWord_of_shows s full
  have hlisteners := listenerWords_of_shows s
  have hattrs := attrWords_of_shows s full
  have hcontent := contentWord_of_shows s
  have hname : display [] false n.name = .ok h.name := by simp [s.name, display]
  obtain ⟨name, isVoid, nodeId, classes, style, listeners, attrs, content, children⟩ := n
  dsimp only at *
  rw [nodeLine]
  simp only [hid, hclass, hstyle, hlisteners, hattrs, hcontent, hname, ok_bind, Head.line]
  cases full with
  | true => rfl
  | false =>
    obtain ⟨hlength, hwords⟩ := hchildren rfl
    simp [hlength, hwords]

theorem nodeLine_opening (s : n.Shows h) : nodeLine [] true n = .ok h.opening := by
  simpa [Head.opening] using nodeLine_of_shows s true "" (by simp)

/-- There is a word for each child. -/
theorem itemWords_of_shows {items : List Term} {children : List Tree}
    (below : List.Forall₂ Shows items children) :
    itemWords [] items = .ok (String.join (children.map Tree.childWord)) := by
  induction below with
  | nil => simp [itemWords]
  | cons hchild _ ih =>
    cases hchild with
    | text x => simp [itemWords, node?, display, Atom.display, Tree.childWord, ih]
    | node fields holder below =>
      simp [itemWords, node?, nameWord, fields.name, Tree.childWord, ih]

/-- A node is coerced to its summary. -/
theorem plain_of_shows {t : Term} {children : List Tree} (s : t.Shows (.node h children)) :
    plain t = .ok (h.summary children) := by
  obtain ⟨id, n, list, items, rfl, fields, holder, below⟩ := s.exists_node
  have hline := nodeLine_of_shows fields false (String.join (children.map Tree.childWord))
    (by simp [holder, length?, childWords, itemWords_of_shows below])
  simp [plain, display, hline, Head.summary]

end Term

/-! ## What is shown on one line -/

/-- What a head shows as it stands has no newline: its name, its events and its attributes. -/
structure Head.Unbroken (h : Head) : Prop where
  name : OnOneLine h.name
  events : ∀ event ∈ Entries.keys h.listeners, OnOneLine event
  attrs : ∀ key ∈ Entries.keys h.attrs, OnOneLine key

/-- No node of a tree shows a newline. -/
def Tree.Unbroken (t : Tree) : Prop := ∀ e ∈ t.nodes, e.1.Unbroken

theorem Tree.unbroken_node {h : Head} {children : List Tree} :
    (Tree.node h children).Unbroken ↔ h.Unbroken ∧ ∀ c ∈ children, c.Unbroken := by
  simp only [Tree.Unbroken, nodes_node, List.forall_mem_cons, List.mem_flatMap]
  constructor
  · rintro ⟨hh, hall⟩
    exact ⟨hh, fun c hc e he => hall e ⟨c, hc, he⟩⟩
  · rintro ⟨hh, hall⟩
    exact ⟨hh, fun e ⟨c, hc, he⟩ => hall c hc e he⟩

theorem Text.onOneLine_cut {s : String} (hs : OnOneLine s) : OnOneLine (Term.cut s) := by
  rw [Term.cut, Term.cutTo]
  split
  · exact hs
  · rw [onOneLine_append]
    refine ⟨?_, by decide⟩
    simpa [OnOneLine] using fun hmem => hs (List.mem_of_mem_take hmem)

theorem Text.onOneLine_repr (n : Nat) : OnOneLine n.repr := by
  rw [Nat.repr_eq_ofList_toDigits, OnOneLine, String.toList_ofList]
  intro hmem
  have hdigit := Nat.isDigit_of_mem_toDigits (by decide) (by decide) hmem
  simp at hdigit

theorem Text.onOneLine_commaSeparated {ss : List String} (hs : ∀ s ∈ ss, OnOneLine s) :
    OnOneLine (Term.commaSeparated ss) :=
  onOneLine_intercalate (by decide) hs

theorem Style.onOneLine_shown (s : Style) : OnOneLine s.shown := by
  have hentries : OnOneLine
      (Term.commaSeparated (s.map fun e => quote e.1 ++ ": " ++ quote e.2)) :=
    Text.onOneLine_commaSeparated
      (List.forall_mem_map.mpr fun e _ => by simp +decide [onOneLine_quote])
  simp +decide [shown, hentries]

theorem AttributeValue.onOneLine_display (v : AttributeValue) :
    OnOneLine (v.toAtom.display true) := by
  cases v with
  | none => decide
  | flag b => cases b <;> decide
  | text s => exact onOneLine_quote s

namespace Head

variable {h : Head}

theorem onOneLine_idWord : OnOneLine h.idWord := by
  rw [idWord]
  cases h.id <;> simp +decide [onOneLine_quote]

theorem onOneLine_classWord : OnOneLine h.classWord := by
  have hclasses : OnOneLine (Term.commaSeparated (h.classes.map quote)) :=
    Text.onOneLine_commaSeparated (by simp [onOneLine_quote])
  rw [classWord]
  split_ifs <;> simp +decide [hclasses]

theorem onOneLine_styleWord (full : Bool) : OnOneLine (h.styleWord full) := by
  rw [styleWord]
  cases h.style with
  | none => simp
  | some s => cases full <;> simp +decide [s.onOneLine_shown]

theorem onOneLine_contentWord : OnOneLine h.contentWord := by
  rw [contentWord]
  split_ifs
  · simp
  · simp +decide [Text.onOneLine_cut (onOneLine_quote h.text)]

theorem Unbroken.onOneLine_listenerWords (hh : h.Unbroken) : OnOneLine h.listenerWords := by
  refine Text.onOneLine_join (List.forall_mem_map.mpr fun e he => ?_)
  have hevent := hh.events e.1 (List.mem_map_of_mem he)
  simp +decide [hevent, Text.onOneLine_repr]

theorem Unbroken.onOneLine_attrWords (hh : h.Unbroken) (full : Bool) :
    OnOneLine (h.attrWords full) := by
  refine Text.onOneLine_join (List.forall_mem_map.mpr fun e he => ?_)
  have hkey := hh.attrs e.1 (List.mem_map_of_mem he)
  cases full <;> simp +decide [hkey, AttributeValue.onOneLine_display]

/-- Every word is on one line, since what is not quoted in it has no newline. -/
theorem Unbroken.onOneLine_line (hh : h.Unbroken) (full : Bool) : OnOneLine (h.line full) := by
  simp +decide [line, hh.name, onOneLine_idWord, onOneLine_classWord, onOneLine_styleWord,
    hh.onOneLine_listenerWords, hh.onOneLine_attrWords, onOneLine_contentWord]

theorem Unbroken.onOneLine_opening (hh : h.Unbroken) : OnOneLine h.opening := hh.onOneLine_line true

end Head

/-- The summary shows the names of the children as they stand, too. -/
theorem Tree.Unbroken.onOneLine_summary {h : Head} {children : List Tree}
    (ht : (Tree.node h children).Unbroken) : OnOneLine (h.summary children) := by
  obtain ⟨hh, hchildren⟩ := unbroken_node.mp ht
  have hwords : OnOneLine (String.join (children.map childWord)) := by
    refine Text.onOneLine_join (List.forall_mem_map.mpr fun c hc => ?_)
    cases c with
    | text s => simp +decide [childWord, Text.onOneLine_cut (onOneLine_quote s)]
    | node head below =>
      have hname := (unbroken_node.mp (hchildren _ hc)).1.name
      simp +decide [childWord, hname]
  simp +decide [Head.summary, hh.onOneLine_line, hwords]

end Markup
