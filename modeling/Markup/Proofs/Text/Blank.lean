import Markup.Text.Blank
import Mathlib.Data.List.DropRight

/-!
# Pieces, words and trimmed texts

Cutting a text at its separators is the splitting of the library (`splitAt_eq_splitOnP`), so pieces
without separators that are put together with separators between them are found again
(`splitAt_intercalate`).  For words this is `words_intercalate`.  A text is `Trimmed` if nothing of
it can be trimmed away: trimming leaves it as it is (`Trimmed.trimBy_eq`) and makes every text one
(`trimmed_trimBy`).
-/

namespace Markup.Text

section Pieces

variable {α : Type} {p : α → Bool} {cs piece : List α}

theorem splitAt_cons (p : α → Bool) (c : α) (cs : List α) :
    splitAt p (c :: cs) =
      if p c then [] :: splitAt p cs else (splitAt p cs).modifyHead (c :: ·) := by
  rw [splitAt, pieces, splitAt]
  split_ifs <;> rfl

theorem splitAt_eq_splitOnP (p : α → Bool) (cs : List α) : splitAt p cs = cs.splitOnP p := by
  induction cs with
  | nil => rfl
  | cons c cs ih => rw [splitAt_cons, ih, List.splitOnP_cons_eq_if_modifyHead]

theorem not_separates_of_mem_splitAt (h : piece ∈ splitAt p cs) : ∀ c ∈ piece, p c = false := by
  induction cs generalizing piece with
  | nil =>
    rw [splitAt, pieces, List.mem_singleton] at h
    simp [h]
  | cons c cs ih =>
    rw [splitAt_cons] at h
    split_ifs at h with hc
    · rcases List.mem_cons.mp h with rfl | h
      · simp
      · exact ih h
    · rw [splitAt, List.modifyHead_cons] at h
      rcases List.mem_cons.mp h with rfl | h
      · exact List.forall_mem_cons.mpr ⟨Bool.eq_false_iff.mpr hc, ih List.mem_cons_self⟩
      · exact ih (List.mem_cons_of_mem _ h)

theorem splitAt_append_cons {c : α} (h : ∀ d ∈ piece, p d = false) (hc : p c) (cs : List α) :
    splitAt p (piece ++ c :: cs) = piece :: splitAt p cs := by
  rw [splitAt_eq_splitOnP, splitAt_eq_splitOnP, List.splitOnP_append_cons_of_forall_mem h c hc]

theorem splitAt_of_forall (h : ∀ d ∈ piece, p d = false) : splitAt p piece = [piece] := by
  rw [splitAt_eq_splitOnP, List.splitOnP_eq_singleton h]

/-- Texts without a character are the pieces of what they are when it is put between them. -/
theorem splitAt_intercalate {c : Char} {ss : List String} (hne : ss ≠ [])
    (h : ∀ s ∈ ss, c ∉ s.toList) :
    (splitAt (· == c) ((String.singleton c).intercalate ss).toList).map String.ofList = ss := by
  have hsplit : ([c].intercalate (ss.map String.toList)).splitOnP (· == c) =
      ss.map String.toList :=
    List.splitOn_intercalate c (by simpa using h) (by simpa using hne)
  rw [splitAt_eq_splitOnP, String.toList_intercalate, String.toList_singleton, hsplit]
  simp [Function.comp_def]

end Pieces

/-! ## Words -/

/-- A word: a text that is not empty and has no blank in it. -/
def IsWord (s : String) : Prop := s.toList ≠ [] ∧ ∀ c ∈ s.toList, isBlank c = false

theorem isWord_of_mem_words {s t : String} (h : s ∈ words t) : IsWord s := by
  obtain ⟨piece, hpiece, rfl⟩ := List.mem_map.mp h
  obtain ⟨hpiece, hne⟩ := List.mem_filter.mp hpiece
  rw [IsWord, String.toList_ofList]
  exact ⟨by simpa using hne, not_separates_of_mem_splitAt hpiece⟩

/-- Words with spaces between them are found again. -/
theorem words_intercalate {ss : List String} (h : ∀ s ∈ ss, IsWord s) :
    words (" ".intercalate ss) = ss := by
  have hsplit : ∀ s : String, ∀ ss : List String, (∀ t ∈ s :: ss, IsWord t) →
      splitAt isBlank (" ".intercalate (s :: ss)).toList = (s :: ss).map String.toList := by
    intro s ss
    induction ss generalizing s with
    | nil =>
      intro h
      have hs := (h s List.mem_cons_self).2
      rw [String.intercalate_singleton, splitAt_of_forall hs, List.map_singleton]
    | cons t ss ih =>
      intro h
      obtain ⟨hs, hrest⟩ := List.forall_mem_cons.mp h
      have happend : (" ".intercalate (s :: t :: ss)).toList =
          s.toList ++ ' ' :: (" ".intercalate (t :: ss)).toList := by
        simp [String.toList_intercalate]
      rw [happend, splitAt_append_cons hs.2 (by decide), ih t hrest]
      rfl
  cases ss with
  | nil => rfl
  | cons s ss =>
    have hne : ∀ cs ∈ (s :: ss).map String.toList, (!cs.isEmpty) = true := by
      rw [List.forall_mem_map]
      exact fun t ht => by simpa using (h t ht).1
    rw [words, hsplit s ss h, List.filter_eq_self.mpr hne, List.map_map]
    simp [Function.comp_def]

/-! ## Trimmed texts -/

section Trimming

variable {α : Type} {p : α → Bool} {cs : List α}

/-- Neither the first nor the last item satisfies the test. -/
structure Trimmed (p : α → Bool) (cs : List α) : Prop where
  head : ∀ c ∈ cs.head?, p c = false
  last : ∀ c ∈ cs.getLast?, p c = false

instance (p : α → Bool) (cs : List α) : Decidable (Trimmed p cs) :=
  decidable_of_iff ((∀ c ∈ cs.head?, p c = false) ∧ ∀ c ∈ cs.getLast?, p c = false)
    ⟨fun h => ⟨h.1, h.2⟩, fun h => ⟨h.head, h.last⟩⟩

theorem trimBy_eq_rdropWhile (p : α → Bool) (cs : List α) :
    trimBy p cs = (cs.dropWhile p).rdropWhile p := rfl

theorem Trimmed.trimBy_eq (h : Trimmed p cs) : trimBy p cs = cs := by
  have hhead : cs.dropWhile p = cs := by
    cases cs with
    | nil => rfl
    | cons c cs => rw [List.dropWhile_cons_of_neg (by simp [h.head c rfl])]
  rw [trimBy_eq_rdropWhile, hhead, List.rdropWhile_eq_self_iff]
  intro hne
  simp [h.last _ (List.getLast?_eq_some_getLast hne)]

theorem mem_of_mem_trimBy {c : α} (h : c ∈ trimBy p cs) : c ∈ cs :=
  (List.dropWhile_sublist p).mem ((List.rdropWhile_prefix p _).mem h)

theorem trimmed_trimBy (p : α → Bool) (cs : List α) : Trimmed p (trimBy p cs) where
  head c hc := by
    obtain ⟨rest, hrest⟩ := List.rdropWhile_prefix p (cs.dropWhile p)
    have hdrop := List.head?_dropWhile_not p cs
    rw [← hrest, List.head?_append, ← trimBy_eq_rdropWhile, Option.mem_def.mp hc] at hdrop
    exact hdrop
  last c hc := by
    have hne : trimBy p cs ≠ [] := by
      intro hnil
      rw [hnil] at hc
      cases hc
    have hlast := List.rdropWhile_last_not p (cs.dropWhile p) hne
    rw [Option.mem_def, List.getLast?_eq_some_getLast hne, Option.some.injEq] at hc
    rw [← hc]
    exact Bool.eq_false_iff.mpr hlast

end Trimming

end Markup.Text
