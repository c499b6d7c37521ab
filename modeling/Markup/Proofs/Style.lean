import Markup.Proofs.Entries
import Markup.Proofs.Text.Blank
import Markup.Proofs.Tree.Rendered

/-!
# Classes and styles shown and read back

A page shows classes as words with spaces between them and a style as its declarations.  Classes
and styles that were read from texts are read from what shows them as they were, in the same order.
A style of any other origin is read back exactly if all its declarations can be told from the text:
properties and values are trimmed and hold no semicolon, properties are not empty and hold no colon
(`Style.read_write_iff`).
-/

namespace Markup

namespace Style

open Text

/-! ## Declarations -/

/-- A text that can be the property of a declaration. -/
structure IsProperty (s : String) : Prop where
  ne_nil : s.toList ≠ []
  trimmed : Trimmed isBlank s.toList
  colon : ':' ∉ s.toList
  semicolon : ';' ∉ s.toList

/-- A text that can be the value of a declaration: it may be empty, and hold colons. -/
structure IsValue (s : String) : Prop where
  trimmed : Trimmed isBlank s.toList
  semicolon : ';' ∉ s.toList

instance (s : String) : Decidable (IsProperty s) :=
  decidable_of_iff
    (s.toList ≠ [] ∧ Trimmed isBlank s.toList ∧ ':' ∉ s.toList ∧ ';' ∉ s.toList)
    ⟨fun h => ⟨h.1, h.2.1, h.2.2.1, h.2.2.2⟩,
      fun h => ⟨h.ne_nil, h.trimmed, h.colon, h.semicolon⟩⟩

instance (s : String) : Decidable (IsValue s) :=
  decidable_of_iff (Trimmed isBlank s.toList ∧ ';' ∉ s.toList)
    ⟨fun h => ⟨h.1, h.2⟩, fun h => ⟨h.trimmed, h.semicolon⟩⟩

/-- The characters of a declaration up to its semicolon. -/
def chars (e : String × String) : List Char := e.1.toList ++ ':' :: e.2.toList

theorem toList_writeEntry (e : String × String) :
    (writeEntry e.1 e.2).toList = chars e ++ [';'] := by
  simp [writeEntry, chars]

/-- A declaration is read from its text. -/
theorem declaration?_chars {e : String × String} (hproperty : IsProperty e.1)
    (hvalue : IsValue e.2) : declaration? (chars e) = some e := by
  have hne : ∀ c ∈ e.1.toList, (c != ':') = true := fun c hc => by
    rw [bne_iff_ne]
    rintro rfl
    exact hproperty.colon hc
  have htake : (chars e).takeWhile (· != ':') = e.1.toList := by
    rw [chars, List.takeWhile_append_of_pos hne]
    simp
  have hdrop : (chars e).dropWhile (· != ':') = ':' :: e.2.toList := by
    rw [chars, List.dropWhile_append_of_pos hne]
    simp
  rw [declaration?, htake, hdrop]
  simp [hproperty.trimmed.trimBy_eq, hvalue.trimmed.trimBy_eq, hproperty.ne_nil]

/-- What is read from a piece without semicolons is a declaration. -/
theorem of_declaration? {piece : List Char} {e : String × String} (hpiece : ';' ∉ piece)
    (h : declaration? piece = some e) : IsProperty e.1 ∧ IsValue e.2 := by
  rw [declaration?] at h
  split at h
  · cases h
  rename_i value hdrop
  split_ifs at h with hempty
  obtain rfl := Option.some.inj h
  have htake : ∀ c ∈ trimBy isBlank (piece.takeWhile (· != ':')),
      c ∈ piece ∧ (c != ':') = true := fun c hc =>
    ⟨(List.takeWhile_sublist _).mem (mem_of_mem_trimBy hc),
      List.mem_takeWhile_imp (p := (· != ':')) (mem_of_mem_trimBy hc)⟩
  have hvalue : ∀ c ∈ trimBy isBlank value, c ∈ piece := fun c hc =>
    (List.dropWhile_sublist (· != ':')).mem (hdrop ▸ List.mem_cons_of_mem _ (mem_of_mem_trimBy hc))
  refine ⟨⟨?_, ?_, ?_, ?_⟩, ?_, ?_⟩ <;> rw [String.toList_ofList]
  · simpa using hempty
  · exact trimmed_trimBy ..
  · exact fun hc => by simpa using (htake _ hc).2
  · exact fun hc => hpiece (htake _ hc).1
  · exact trimmed_trimBy ..
  · exact fun hc => hpiece (hvalue _ hc)

/-! ## Whole styles -/

/-- Everything that is read is a declaration. -/
theorem isDeclaration_of_mem_read {y : String} {e : String × String} (h : e ∈ read y) :
    IsProperty e.1 ∧ IsValue e.2 := by
  have hpieces : ∀ d ∈ (splitAt (· == ';') y.toList).filterMap declaration?,
      IsProperty d.1 ∧ IsValue d.2 := by
    intro d hd
    obtain ⟨piece, hpiece, hd⟩ := List.mem_filterMap.mp hd
    refine of_declaration? (fun hc => ?_) hd
    simpa using not_separates_of_mem_splitAt hpiece _ hc
  constructor
  · rcases Entries.mem_keys_update (List.mem_map_of_mem h) with hnone | hkey
    · cases hnone
    · obtain ⟨d, hd, heq⟩ := List.mem_map.mp hkey
      exact heq ▸ (hpieces d hd).1
  · obtain ⟨d, hd, heq⟩ := List.mem_map.mp (Entries.value_of_mem_ofList h)
    exact heq ▸ (hpieces d hd).2

theorem splitAt_write {d : Style} (h : ∀ e ∈ d, IsProperty e.1 ∧ IsValue e.2) :
    splitAt (· == ';') d.write.toList = d.map chars ++ [[]] := by
  induction d with
  | nil => rfl
  | cons e d ih =>
    obtain ⟨⟨hproperty, hvalue⟩, hrest⟩ := List.forall_mem_cons.mp h
    have hwrite : (write (e :: d)).toList = chars e ++ ';' :: (write d).toList := by
      simp [write, String.toList_join, toList_writeEntry]
    have hfree : ∀ c ∈ chars e, (c == ';') = false := by
      intro c hc
      rw [beq_eq_false_iff_ne]
      rintro rfl
      rw [chars, List.mem_append, List.mem_cons] at hc
      rcases hc with hc | hc | hc
      · exact hproperty.semicolon hc
      · cases hc
      · exact hvalue.semicolon hc
    rw [hwrite, splitAt_append_cons hfree (by decide), ih hrest, List.map_cons, List.cons_append]

/-- Declarations are read from their text. -/
theorem read_write {d : Style} (hkeys : (Entries.keys d).Nodup)
    (h : ∀ e ∈ d, IsProperty e.1 ∧ IsValue e.2) : read d.write = d := by
  have hread : (d.map chars).filterMap declaration? = d := by
    rw [List.filterMap_map]
    conv_rhs => rw [← List.filterMap_some (l := d)]
    exact List.filterMap_congr fun e he => declaration?_chars (h e he).1 (h e he).2
  have hnone : List.filterMap declaration? [[]] = [] := rfl
  rw [read, splitAt_write h, List.filterMap_append, hread, hnone, List.append_nil]
  exact Entries.update_of_nodup hkeys

/-- A style is read back exactly if all its declarations can be told from the text. -/
theorem read_write_iff {d : Style} (hkeys : (Entries.keys d).Nodup) :
    read d.write = d ↔ ∀ e ∈ d, IsProperty e.1 ∧ IsValue e.2 := by
  refine ⟨fun h e he => ?_, read_write hkeys⟩
  rw [← h] at he
  exact isDeclaration_of_mem_read he

theorem read_write_read (y : String) : read (read y).write = read y :=
  read_write (Entries.nodup_keys_ofList _) fun _ he => isDeclaration_of_mem_read he

end Style

/-! ## Shown and read back -/

open AttributeSet Html

/-- The classes of a text. -/
theorem words_intercalate_words (c : String) :
    Text.words (" ".intercalate (Text.words c)) = Text.words c :=
  Text.words_intercalate fun _ => Text.isWord_of_mem_words

/--
Classes and styles that were read from texts are read from what shows them, in the same order; and
a style with distinct properties is read back exactly if each of its declarations can be told from
the text.
-/
theorem shown_read_back (c y : String) {d : Style} (hkeys : (Entries.keys d).Nodup) (map : Nat) :
    (∃ classes joined, classesOf (.text c) = .ok classes ∧ joinTexts classes = .ok joined ∧
        classesOf (.text joined) = .ok classes) ∧
      (∃ style shown, styleOf (.text y) = .ok (some style) ∧
        styleText (.map map style.terms) = .ok shown ∧
        styleOf (.text shown) = .ok (some style)) ∧
      ∃ shown, styleText (.map map d.terms) = .ok shown ∧
        (styleOf (.text shown) = .ok (some d) ↔
          ∀ e ∈ d, Style.IsProperty e.1 ∧ Style.IsValue e.2) := by
  refine ⟨⟨_, _, rfl, joinTexts_texts _, ?_⟩, ⟨_, _, rfl, styleText_terms .., ?_⟩,
    _, styleText_terms .., ?_⟩
  · rw [classesOf, words_intercalate_words]
  · rw [styleOf, Style.read_write_read]
  · rw [styleOf, Except.ok.injEq, Option.some.injEq, Style.read_write_iff hkeys]

/-- A style with a colon and a blank in its values, and with a value that is empty. -/
def punctuated : Style := [("a", "x:y"), ("b", ""), ("c", "1 2")]

theorem shown_read_back_punctuated :
    (Entries.keys punctuated).Nodup ∧
      (∃ shown, styleText (.map 0 punctuated.terms) = .ok shown ∧
        styleOf (.text shown) = .ok (some punctuated)) ∧
      ∃ shown, styleText (.map 0 (Style.terms [("a:b", "")])) = .ok shown ∧
        styleOf (.text shown) ≠ .ok (some [("a:b", "")]) := by
  have hkeys : (Entries.keys punctuated).Nodup := by decide
  have hall : ∀ e ∈ punctuated, Style.IsProperty e.1 ∧ Style.IsValue e.2 := by decide
  obtain ⟨-, -, shown, htext, hread⟩ := shown_read_back "" "" hkeys 0
  obtain ⟨-, -, other, hother, hlost⟩ :=
    shown_read_back "" "" (d := [("a:b", "")]) (List.nodup_singleton _) 0
  refine ⟨hkeys, ⟨shown, htext, hread.mpr hall⟩, other, hother, fun h => ?_⟩
  exact (hlost.mp h _ List.mem_cons_self).1.colon (by decide)

end Markup
