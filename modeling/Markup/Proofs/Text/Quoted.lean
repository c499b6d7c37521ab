import Markup.Proofs.Text.Blank
import Markup.Text.Quoted

/-!
# Lines, and texts on one line

`lines` cuts a text at its newlines, and texts that are each on one line are found again when they
are put together with newlines between them (`lines_intercalate`).  Whatever a text holds, it is
on one line between quotes (`onOneLine_quote`).
-/

namespace Markup.Text

/-- The lines of a text. -/
def lines (s : String) : List String := (splitAt (· == '\n') s.toList).map String.ofList

/-- There is no newline in the text. -/
def OnOneLine (s : String) : Prop := '\n' ∉ s.toList

instance (s : String) : Decidable (OnOneLine s) := inferInstanceAs (Decidable ('\n' ∉ s.toList))

section OneLine

variable {s t : String} {ss : List String}

@[simp] theorem onOneLine_empty : OnOneLine "" := by simp [OnOneLine]

@[simp] theorem onOneLine_append : OnOneLine (s ++ t) ↔ OnOneLine s ∧ OnOneLine t := by
  simp [OnOneLine]

theorem onOneLine_join (h : ∀ s ∈ ss, OnOneLine s) : OnOneLine (String.join ss) := by
  simpa [OnOneLine, String.toList_join] using h

theorem onOneLine_intercalate (ht : OnOneLine t) (h : ∀ s ∈ ss, OnOneLine s) :
    OnOneLine (t.intercalate ss) := by
  induction ss with
  | nil => simp
  | cons s ss ih =>
    obtain ⟨hs, hrest⟩ := List.forall_mem_cons.mp h
    cases ss with
    | nil => simpa using hs
    | cons u us => simp [String.intercalate_cons_cons, hs, ht, ih hrest]

theorem onOneLine_replicate (n : Nat) {c : Char} (h : c ≠ '\n') :
    OnOneLine (String.ofList (List.replicate n c)) := by
  simp [OnOneLine, Ne.symm h]

/-- Texts on one line each, with newlines between them, are the lines of what results. -/
theorem lines_intercalate (hne : ss ≠ []) (h : ∀ s ∈ ss, OnOneLine s) :
    lines ("\n".intercalate ss) = ss :=
  splitAt_intercalate hne h

end OneLine

/-! ## Quoted texts -/

theorem newline_not_mem_toDigits (n : Nat) : '\n' ∉ Nat.toDigits 16 n := by
  induction n using Nat.strongRecOn with
  | ind n ih =>
    have hdigit : ∀ d : Nat, '\n' ≠ d.digitChar := fun d =>
      (Nat.digitChar_ne '\n' (by decide)).symm
    rw [Nat.toDigits_eq_if (by decide)]
    split
    · simp [hdigit]
    · have hless : n / 16 < n := by omega
      simp [hdigit, ih _ hless]

theorem newline_not_mem_hexEscape (n : Nat) : '\n' ∉ hexEscape n := by
  have hhex : ∀ width, '\n' ∉ hex width n := fun width => by
    simp [hex, newline_not_mem_toDigits]
  rw [hexEscape]
  split_ifs <;> simp [hhex]

theorem chooseQuote_ne_newline (cs : List Char) : chooseQuote cs ≠ '\n' := by
  rw [chooseQuote]
  split_ifs <;> decide

/-- A newline has an escape of its own, in which there is none. -/
theorem newline_not_mem_shortEscape {q c : Char} (hq : q ≠ '\n') :
    match shortEscape? q c with
    | some e => '\n' ∉ e
    | none => c ≠ '\n' := by
  rw [shortEscape?]
  split_ifs with hself htab hnewline hreturn
  · have hc : c ≠ '\n' := by
      rintro rfl
      simp [hq.symm] at hself
    simp [hc.symm]
  · simp
  · simp
  · simp
  · exact hnewline

theorem newline_not_mem_quoteChar {q : Char} (hq : q ≠ '\n') (c : Char) :
    '\n' ∉ quoteChar q c := by
  have hshort := newline_not_mem_shortEscape (c := c) hq
  rw [quoteChar]
  cases hescape : shortEscape? q c with
  | some e => simpa [hescape] using hshort
  | none =>
    rw [hescape] at hshort
    have hhex := newline_not_mem_hexEscape c.toNat
    by_cases hprintable : isPrintable c <;> simp [hprintable, Ne.symm hshort, hhex]

/-- A quoted text is on one line, whatever it holds. -/
theorem onOneLine_quote (s : String) : OnOneLine (quote s) := by
  have hquote := chooseQuote_ne_newline s.toList
  simp [OnOneLine, quote, hquote.symm, newline_not_mem_quoteChar hquote]

end Markup.Text
