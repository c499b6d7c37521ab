import Markup.Proofs.Attributes.Rereading

/-!
# Selectors are read by their grammar

A text has exactly one decomposition into unmarked text and segments, each begun by a marker and
unmarked after it (`exists_unique_of`), and a scan finds the segments of it that are not empty.

`scanByIndex` is the scan as a loop over the characters with their indices: it keeps the marker it
saw last and the index behind it, and cuts a segment out of the text when it meets the next marker
or the end.  `Cursor.Follows` is what the loop keeps up: the characters behind it are the closed
segments and the one still open, which is the text between its two indices.

The names that a selector gives, written as a selector again (`Naming.text`) or as a map
(`Naming.term`), are read as the same names (`selector_grammar`).
-/

namespace Markup

namespace Selector

open Operation

/-! ## The grammar -/

/-- No marker occurs among the characters. -/
def Unmarked (cs : List Char) : Prop := '#' ∉ cs ∧ '.' ∉ cs

/-- The segments that are not empty. -/
def kept (ss : List (Marker × List Char)) : List (Marker × String) :=
  (ss.filter fun e => !e.2.isEmpty).map fun e => (e.1, String.ofList e.2)

/-- The texts of the segments of one marker that are not empty. -/
def named (ss : List (Marker × List Char)) (m : Marker) : List String :=
  ((kept ss).filter fun e => e.1 = m).map Prod.snd

/-- What stands before the first marker of a text, and each marker with what follows it. -/
structure Decomposition where
  before : List Char
  segments : List (Marker × List Char)

namespace Decomposition

/-- The characters of some segments, markers included. -/
def spell (ss : List (Marker × List Char)) : List Char := ss.flatMap fun e => e.1.char :: e.2

/-- The characters that are decomposed. -/
def chars (d : Decomposition) : List Char := d.before ++ spell d.segments

/-- The characters decompose in this way: they are put together of parts that hold no marker. -/
structure Of (d : Decomposition) (cs : List Char) : Prop where
  chars : d.chars = cs
  before : Unmarked d.before
  segments : ∀ e ∈ d.segments, Unmarked e.2

end Decomposition

open Decomposition

variable {cs : List Char} {d : Decomposition}

theorem Marker.char_of_ofChar? {c : Char} {m : Marker} (h : ofChar? c = some m) : m.char = c := by
  rw [ofChar?] at h
  split_ifs at h with hid hclass
  · cases h
    exact hid.symm
  · cases h
    exact hclass.symm

theorem Marker.ofChar?_eq_none {c : Char} : ofChar? c = none ↔ c ≠ '#' ∧ c ≠ '.' := by
  rw [ofChar?]
  split_ifs with hid hclass <;> simp [*]

theorem unmarked_iff : Unmarked cs ↔ ∀ c ∈ cs, Marker.ofChar? c = none := by
  simp only [Marker.ofChar?_eq_none, forall_and]
  exact and_congr ⟨fun h c hc heq => h (heq ▸ hc), fun h hc => h _ hc rfl⟩
    ⟨fun h c hc heq => h (heq ▸ hc), fun h hc => h _ hc rfl⟩

theorem decompose_unmarked_append {p : List Char} (hp : Unmarked p) (cs : List Char) :
    decompose Marker.ofChar? (p ++ cs) =
      (p ++ (decompose Marker.ofChar? cs).1, (decompose Marker.ofChar? cs).2) := by
  rw [unmarked_iff] at hp
  induction p with
  | nil => rfl
  | cons c p ih =>
    rw [List.forall_mem_cons] at hp
    rw [List.cons_append, decompose, ih hp.2, hp.1]
    rfl

theorem decompose_spell {ss : List (Marker × List Char)} (h : ∀ e ∈ ss, Unmarked e.2) :
    decompose Marker.ofChar? (spell ss) = ([], ss) := by
  induction ss with
  | nil => rfl
  | cons e ss ih =>
    rw [List.forall_mem_cons] at h
    have hrest := decompose_unmarked_append h.1 (spell ss)
    rw [ih h.2, List.append_nil] at hrest
    rw [spell, List.flatMap_cons, ← spell, List.cons_append, decompose, hrest, Marker.ofChar?_char]

/-- What `decompose` finds is the decomposition. -/
theorem Decomposition.Of.eq_decompose (h : d.Of cs) :
    decompose Marker.ofChar? cs = (d.before, d.segments) := by
  rw [← h.chars, Decomposition.chars, decompose_unmarked_append h.before,
    decompose_spell h.segments, List.append_nil]

theorem of_decompose (cs : List Char) :
    Decomposition.Of ⟨(decompose Marker.ofChar? cs).1, (decompose Marker.ofChar? cs).2⟩ cs := by
  induction cs with
  | nil => exact ⟨rfl, by simp [decompose, Unmarked], by simp [decompose]⟩
  | cons c cs ih =>
    have hchars : (decompose Marker.ofChar? cs).1 ++ spell (decompose Marker.ofChar? cs).2 = cs :=
      ih.chars
    have hbefore := unmarked_iff.mp ih.before
    rw [decompose]
    cases hc : Marker.ofChar? c with
    | none =>
      exact ⟨congrArg (c :: ·) hchars, unmarked_iff.mpr (List.forall_mem_cons.mpr ⟨hc, hbefore⟩),
        ih.segments⟩
    | some m =>
      have hspell : spell ((m, (decompose Marker.ofChar? cs).1) ::
          (decompose Marker.ofChar? cs).2) = m.char :: cs := congrArg (m.char :: ·) hchars
      rw [Marker.char_of_ofChar? hc] at hspell
      exact ⟨hspell, by simp [Unmarked], List.forall_mem_cons.mpr ⟨ih.before, ih.segments⟩⟩

/-- Every text decomposes in one way. -/
theorem exists_unique_of (cs : List Char) : ∃! d : Decomposition, d.Of cs := by
  refine ⟨_, of_decompose cs, fun d hd => ?_⟩
  rw [hd.eq_decompose]

theorem kept_append (ss ts : List (Marker × List Char)) : kept (ss ++ ts) = kept ss ++ kept ts := by
  rw [kept, List.filter_append, List.map_append, ← kept, ← kept]

theorem scan_of {s : String} (h : d.Of s.toList) : scan s = kept d.segments := by
  rw [scan, segments, h.eq_decompose, kept]

/-! ## The scan as a loop -/

/--
The state of a scan: the marker seen last, the index behind it, and the segments found so far.
-/
structure Cursor where
  marker : Option Marker
  start : Nat
  found : List (Marker × String)

namespace Cursor

variable {cur : Cursor} {i : Nat} {before : List Char} {closed : List (Marker × List Char)}

/-- The segment that ends before an index, if a marker was seen and something stands behind it. -/
def cut (cur : Cursor) (cs : List Char) (i : Nat) : List (Marker × String) :=
  match cur.marker with
  | none => []
  | some m => if cur.start < i then [(m, String.ofList ((cs.take i).drop cur.start))] else []

/-- Reads the character at an index. -/
def step (cs : List Char) (cur : Cursor) (e : Char × Nat) : Cursor :=
  match Marker.ofChar? e.1 with
  | none => cur
  | some m => ⟨some m, e.2 + 1, cur.found ++ cur.cut cs e.2⟩

/-- The segment that is open before an index, empty or not. -/
def pending (cur : Cursor) (cs : List Char) (i : Nat) : List (Marker × List Char) :=
  match cur.marker with
  | none => []
  | some m => [(m, (cs.take i).drop cur.start)]

/--
How a scan stands before an index: the characters that it has read decompose into closed segments,
of which it has found those that are not empty, and the one it has open, which reaches from the
start that it keeps to the index.
-/
structure Follows (cur : Cursor) (cs : List Char) (i : Nat) (before : List Char)
    (closed : List (Marker × List Char)) : Prop where
  read : Decomposition.Of ⟨before, closed ++ cur.pending cs i⟩ (cs.take i)
  found : cur.found = kept closed
  start : cur.start ≤ i
  closed : cur.marker = none → closed = []

/-- What is cut out is the open segment, unless it is empty. -/
theorem cut_eq_kept (hi : i ≤ cs.length) : cur.cut cs i = kept (cur.pending cs i) := by
  rw [cut, pending]
  cases cur.marker with
  | none => rfl
  | some m =>
    by_cases hlt : cur.start < i
    · have hne : (cs.take i).drop cur.start ≠ [] := by
        rw [Ne, List.drop_eq_nil_iff, List.length_take]
        omega
      simp [kept, hlt, hne]
    · have hnil : (cs.take i).drop cur.start = [] := by
        rw [List.drop_eq_nil_iff, List.length_take]
        omega
      simp [kept, hlt, hnil]

/-- A character that is no marker goes to the open segment, or to what stands before the first. -/
theorem Follows.step_unmarked {c : Char} (h : cur.Follows cs i before closed)
    (hread : cs.take (i + 1) = cs.take i ++ [c]) (hi : i ≤ cs.length)
    (hc : Marker.ofChar? c = none) :
    ∃ before, (cur.step cs (c, i)).Follows cs (i + 1) before closed := by
  have hstep : cur.step cs (c, i) = cur := by rw [step, hc]
  have hsingle : Unmarked [c] := unmarked_iff.mpr (by simpa using hc)
  have happend : ∀ {t : List Char}, Unmarked t → Unmarked (t ++ [c]) := fun ht =>
    unmarked_iff.mpr fun b hb => (List.mem_append.mp hb).elim (unmarked_iff.mp ht b)
      (unmarked_iff.mp hsingle b)
  obtain ⟨⟨hchars, hbefore, hsegments⟩, hfound, hstart, hclosed⟩ := h
  rw [hstep]
  cases hm : cur.marker with
  | none =>
    have hnone : ∀ j, cur.pending cs j = [] := fun j => by rw [pending, hm]
    obtain rfl := hclosed hm
    rw [hnone, List.append_nil] at hchars
    refine ⟨before ++ [c], ⟨?_, happend hbefore, ?_⟩, hfound, by omega, fun _ => rfl⟩
    · rw [hnone, hread, ← hchars]
      simp [chars, spell]
    · rw [hnone]
      exact fun e he => absurd he List.not_mem_nil
  | some m =>
    have hspell : ∀ t, chars ⟨before, closed ++ [(m, t ++ [c])]⟩ =
        chars ⟨before, closed ++ [(m, t)]⟩ ++ [c] := fun t => by simp [chars, spell]
    have hpending : ∀ j, cur.pending cs j = [(m, (cs.take j).drop cur.start)] := fun j => by
      rw [pending, hm]
    have hgrown : (cs.take (i + 1)).drop cur.start = (cs.take i).drop cur.start ++ [c] := by
      rw [hread, List.drop_append_of_le_length]
      rw [List.length_take]
      omega
    rw [hpending] at hchars hsegments
    rw [List.forall_mem_append, List.forall_mem_singleton] at hsegments
    refine ⟨before, ⟨?_, hbefore, ?_⟩, hfound, by omega, fun heq => ?_⟩
    · rw [hpending, hgrown, hspell, hchars, hread]
    · rw [hpending, hgrown, List.forall_mem_append, List.forall_mem_singleton]
      exact ⟨hsegments.1, happend hsegments.2⟩
    · rw [hm] at heq
      cases heq

/-- A marker closes the open segment and opens one that is empty. -/
theorem Follows.step_marker {c : Char} {m : Marker} (h : cur.Follows cs i before closed)
    (hread : cs.take (i + 1) = cs.take i ++ [c]) (hi : i ≤ cs.length)
    (hc : Marker.ofChar? c = some m) :
    (cur.step cs (c, i)).Follows cs (i + 1) before (closed ++ cur.pending cs i) := by
  have hstep : cur.step cs (c, i) = ⟨some m, i + 1, cur.found ++ cur.cut cs i⟩ := by rw [step, hc]
  have hpending : (cur.step cs (c, i)).pending cs (i + 1) = [(m, [])] := by
    rw [hstep, pending, List.drop_eq_nil_of_le (List.length_take_le ..)]
  obtain ⟨⟨hchars, hbefore, hsegments⟩, hfound, -, -⟩ := h
  refine ⟨⟨?_, hbefore, ?_⟩, ?_, hstep ▸ Nat.le_refl _, fun heq => ?_⟩
  · rw [hpending, hread, ← hchars, ← Marker.char_of_ofChar? hc]
    simp [chars, spell]
  · rw [hpending, List.forall_mem_append, List.forall_mem_singleton]
    exact ⟨hsegments, by simp [Unmarked]⟩
  · rw [hstep, hfound, cut_eq_kept hi, kept_append]
  · rw [hstep] at heq
    cases heq

/-- Reading one character keeps up with the decomposition. -/
theorem Follows.step {c : Char} (h : cur.Follows cs i before closed) (hc : cs[i]? = some c) :
    ∃ before closed, (cur.step cs (c, i)).Follows cs (i + 1) before closed := by
  have hread : cs.take (i + 1) = cs.take i ++ [c] := by rw [List.take_add_one, hc, Option.toList]
  have hi : i ≤ cs.length := Nat.le_of_lt (List.getElem?_eq_some_iff.mp hc).1
  cases hm : Marker.ofChar? c with
  | none =>
    obtain ⟨before, h⟩ := h.step_unmarked hread hi hm
    exact ⟨before, closed, h⟩
  | some m => exact ⟨before, _, h.step_marker hread hi hm⟩

/-- A scan that stands right before an index stands right at the end. -/
theorem Follows.foldl {rest : List Char} (h : cur.Follows cs i before closed)
    (hrest : cs.drop i = rest) (hi : i ≤ cs.length) :
    ∃ before closed,
      ((rest.zipIdx i).foldl (Cursor.step cs) cur).Follows cs cs.length before closed := by
  induction rest generalizing cur i before closed with
  | nil =>
    obtain rfl : i = cs.length := Nat.le_antisymm hi (List.drop_eq_nil_iff.mp hrest)
    exact ⟨before, closed, h⟩
  | cons c rest ih =>
    have hc : cs[i]? = some c := by
      rw [← List.head?_drop, hrest, List.head?_cons]
    have hnext : cs.drop (i + 1) = rest := by rw [← List.tail_drop, hrest, List.tail_cons]
    obtain ⟨before, closed, hstep⟩ := h.step hc
    exact ih hstep hnext (List.getElem?_eq_some_iff.mp hc).1

theorem follows_start (cs : List Char) : (Cursor.mk none 0 []).Follows cs 0 [] [] :=
  ⟨⟨rfl, by simp [Unmarked], by simp [pending]⟩, rfl, (Nat.le_refl _), fun _ => rfl⟩

end Cursor

/-- The segments that a loop over the characters and their indices finds. -/
def scanByIndex (s : String) : List (Marker × String) :=
  let cur := s.toList.zipIdx.foldl (Cursor.step s.toList) ⟨none, 0, []⟩
  cur.found ++ cur.cut s.toList s.toList.length

/-- The loop finds what the grammar says. -/
theorem scanByIndex_eq_scan (s : String) : scanByIndex s = scan s := by
  obtain ⟨before, closed, h⟩ := (Cursor.follows_start s.toList).foldl List.drop_zero (Nat.zero_le _)
  have hread := h.read
  rw [List.take_length] at hread
  rw [scan_of hread, kept_append, scanByIndex, h.found, Cursor.cut_eq_kept (Nat.le_refl _)]

/-! ## Names written and read back -/

namespace Naming

/-- The names as the segments of a selector: the id if there is one, then the classes. -/
def segments (n : Naming String) : List (Marker × List Char) :=
  (n.id.toList.map fun s => (.id, s.toList)) ++ n.classes.map fun s => (.className, s.toList)

/-- The names as a selector. -/
def text (n : Naming String) : String :=
  n.id.elim "" ("#" ++ ·) ++ String.join (n.classes.map ("." ++ ·))

/-- The names as a map of attributes. -/
def term (map list : Nat) (n : Naming String) : Term :=
  .map map [(.text "id", .ofText? n.id), (.text "class", .list list (n.classes.map .text))]

end Naming

theorem Naming.toList_text (n : Naming String) : n.text.toList = spell n.segments := by
  have hid : (n.id.elim "" ("#" ++ ·)).toList =
      spell (n.id.toList.map fun s => (.id, s.toList)) := by
    cases n.id with
    | none => rfl
    | some s => simp [spell, Marker.char]
  have hclasses : (String.join (n.classes.map ("." ++ ·))).toList =
      spell (n.classes.map fun s => (.className, s.toList)) := by
    rw [String.toList_join, spell, List.flatMap_map, List.flatMap_map]
    simp [Marker.char]
  rw [text, String.toList_append, hid, hclasses, segments, spell, spell, spell, List.flatMap_append]

theorem parse_of {s : String} (h : d.Of s.toList) :
    parse s = ⟨(named d.segments .id).getLast?, named d.segments .className⟩ := by
  have hnamed : ∀ (ss : List (Marker × String)) (m : Marker),
      (ss.filterMap fun e => if e.1 = m then some e.2 else none) =
        (ss.filter fun e => e.1 = m).map Prod.snd := by
    intro ss m
    induction ss with
    | nil => rfl
    | cons e ss ih => by_cases he : e.1 = m <;> simp [he, ih]
  rw [parse, scan_of h, Naming.ofSegments, hnamed, hnamed, ← named, ← named]

/-- What is read as a name is not empty and holds no marker. -/
theorem unmarked_of_mem_named {s : String} {m : Marker} {ss : List (Marker × List Char)}
    (hss : ∀ e ∈ ss, Unmarked e.2) (h : s ∈ named ss m) : Unmarked s.toList ∧ s.toList ≠ [] := by
  obtain ⟨e, he, rfl⟩ := List.mem_map.mp h
  obtain ⟨e, hkept, rfl⟩ := List.mem_map.mp (List.mem_filter.mp he).1
  obtain ⟨he, hne⟩ := List.mem_filter.mp hkept
  rw [String.toList_ofList]
  exact ⟨hss e he, by simpa using hne⟩

/-- Names that are not empty and hold no marker are read back. -/
theorem parse_text {n : Naming String} (hid : ∀ s ∈ n.id, Unmarked s.toList ∧ s.toList ≠ [])
    (hclasses : ∀ s ∈ n.classes, Unmarked s.toList ∧ s.toList ≠ []) : parse n.text = n := by
  have hsegments : ∀ e ∈ n.segments, Unmarked e.2 ∧ e.2 ≠ [] := by
    rw [Naming.segments, List.forall_mem_append, List.forall_mem_map, List.forall_mem_map]
    exact ⟨fun s hs => hid s (Option.mem_toList.mp hs), hclasses⟩
  have hof : Decomposition.Of ⟨[], n.segments⟩ n.text.toList :=
    ⟨n.toList_text.symm, by simp [Unmarked], fun e he => (hsegments e he).1⟩
  have hkept : kept n.segments = n.segments.map fun e => (e.1, String.ofList e.2) := by
    rw [kept, List.filter_eq_self.mpr fun e he => by simpa using (hsegments e he).2]
  rw [parse_of hof, named, named, hkept, Naming.segments]
  cases n with
  | mk id classes => cases id <;> simp [List.filter_map, Function.comp_def]

theorem parse_text_parse (s : String) : parse (parse s).text = parse s := by
  have hd := of_decompose s.toList
  apply parse_text <;> rw [parse_of hd]
  · exact fun t ht => unmarked_of_mem_named hd.segments (List.mem_of_getLast? ht)
  · exact fun t ht => unmarked_of_mem_named hd.segments ht

/-- A map with the names that a selector gives describes the same attributes. -/
theorem ofTerm_term_parse (map list : Nat) (s : String) :
    AttributeSet.ofTerm ((parse s).term map list) = AttributeSet.ofTerm (.text s) := by
  have hclass : AttributeSet.classesOf (.list list ((parse s).classes.map .text)) =
      .ok ((parse s).classes.map .text) := rfl
  simp [AttributeSet.ofTerm, AttributeSet.ofSelector, Naming.term, AttributeSet.ofEntries,
    AttributeSet.addEntry_id, AttributeSet.addEntry_class hclass]

/-- The segments of a text as values. -/
theorem runIn_scanValue (s : String) (w : World) :
    (scanValue (.text s)).runIn w = (.ok ((scan s).map fun e => (e.1, .text e.2)), w) := rfl

/-- The names that a text gives as values. -/
theorem runIn_parseValue (s : String) (w : World) :
    (parseValue (.text s)).runIn w =
      (.ok ⟨(parse s).id.map .text, (parse s).classes.map .text⟩, w) := by
  rw [parseValue, runIn_bind, runIn_scanValue, parse, Naming.ofSegments]
  simp [Naming.ofSegments, List.filterMap_map, List.map_filterMap, Function.comp_def, apply_ite]

/--
Selectors are read by their grammar.  Every text has one decomposition; a scan, also one by
indices, finds the segments that are not empty; the last of an id is the id and all of classes are
the classes; and both the selector and the map with these names are read as they are.
-/
theorem selector_grammar (s : String) :
    (∃! d : Decomposition, d.Of s.toList) ∧
      ∀ d : Decomposition, d.Of s.toList →
        scanByIndex s = kept d.segments ∧ scan s = kept d.segments ∧
          (∀ w : World, (scanValue (.text s)).runIn w =
            (.ok ((kept d.segments).map fun e => (e.1, .text e.2)), w)) ∧
          parse s = ⟨(named d.segments .id).getLast?, named d.segments .className⟩ ∧
          (∀ w : World, (parseValue (.text s)).runIn w =
            (.ok ⟨(named d.segments .id).getLast?.map .text,
              (named d.segments .className).map .text⟩, w)) ∧
          parse (parse s).text = parse s ∧
          ∀ map list,
            AttributeSet.ofTerm (.text s) = AttributeSet.ofTerm ((parse s).term map list) := by
  refine ⟨exists_unique_of s.toList, fun d hd => ?_⟩
  have hscan := scan_of hd
  have hparse := parse_of hd
  refine ⟨(scanByIndex_eq_scan s).trans hscan, hscan, fun w => ?_, hparse, fun w => ?_,
    parse_text_parse s, fun map list => (ofTerm_term_parse map list s).symm⟩
  · rw [runIn_scanValue, hscan]
  · rw [runIn_parseValue, hparse]

/-- Text before the first marker, segments that are empty, and one that ends with the text. -/
def crowded : Decomposition :=
  ⟨['p'], [(.id, []), (.id, ['a']), (.className, ['b']), (.className, []), (.id, ['c', 'd'])]⟩

theorem selector_grammar_crowded :
    crowded.Of "p##a.b.#cd".toList ∧
      scanByIndex "p##a.b.#cd" = [(.id, "a"), (.className, "b"), (.id, "cd")] ∧
      parse "p##a.b.#cd" = ⟨some "cd", ["b"]⟩ ∧ parse "#cd.b" = ⟨some "cd", ["b"]⟩ := by
  have hd : crowded.Of "p##a.b.#cd".toList :=
    ⟨by decide, by simp [Unmarked, crowded], by simp [Unmarked, crowded]⟩
  obtain ⟨hindex, -, -, hparse, -, htext, -⟩ := (selector_grammar "p##a.b.#cd").2 crowded hd
  have hnames : parse "p##a.b.#cd" = ⟨some "cd", ["b"]⟩ := hparse.trans (by decide)
  rw [hnames] at htext
  exact ⟨hd, hindex.trans (by decide), hnames, htext⟩

end Selector

end Markup
