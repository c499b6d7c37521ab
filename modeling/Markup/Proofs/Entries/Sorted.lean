import Markup.Proofs.Computation
import Mathlib.Data.List.Nodup
import Mathlib.Data.List.Perm.Subperm
import Mathlib.Data.String.Basic

/-!
# Entries in the order of their keys

Sorting keeps the entries and forgets the order in which they were set: maps with the same entries
become the same list (`sorted_eq_iff`).  Where no key is repeated, the keys grow from each entry to
the next (`pairwise_lt_sorted`).

Maps can also have the same keys with values that are related otherwise (`Matched`), which is to say
that the sorted maps are related entry by entry (`forall₂_sorted_iff`).
-/

namespace Markup.Entries

variable {β : Type} {R : β → β → Prop} {m m' : Entries String β}

theorem sorted_perm (m : Entries String β) : m.sorted.Perm m := List.mergeSort_perm m _

@[simp] theorem mem_sorted {e : String × β} : e ∈ m.sorted ↔ e ∈ m := m.sorted_perm.mem_iff

@[simp] theorem sorted_nil : sorted ([] : Entries String β) = [] := by simp [sorted]

@[simp] theorem sorted_singleton (e : String × β) : sorted [e] = [e] := by simp [sorted]

theorem nodup_keys_sorted (h : (keys m).Nodup) : (keys m.sorted).Nodup :=
  (m.sorted_perm.map _).nodup_iff.mpr h

theorem pairwise_sorted (m : Entries String β) : m.sorted.Pairwise fun a b => a.1 ≤ b.1 := by
  have h : m.sorted.Pairwise fun a b => decide (a.1 ≤ b.1) = true := List.pairwise_mergeSort
    (fun a b c hab hbc => by simpa using (of_decide_eq_true hab).trans (of_decide_eq_true hbc))
    (fun a b => by simpa using le_total a.1 b.1) m
  exact h.imp of_decide_eq_true

theorem pairwise_lt_sorted (h : (keys m).Nodup) : m.sorted.Pairwise fun a b => a.1 < b.1 := by
  have hne : m.sorted.Pairwise fun a b => a.1 ≠ b.1 :=
    List.pairwise_map.mp (nodup_keys_sorted h)
  exact m.pairwise_sorted.imp₂ (fun _ _ hle hne => lt_of_le_of_ne hle hne) hne

/-- What stands under the keys does not matter to their order. -/
theorem sorted_map_snd {γ : Type} (m : Entries String β) (f : β → γ) :
    sorted (m.map fun e => (e.1, f e.2)) = m.sorted.map fun e => (e.1, f e.2) := by
  rw [sorted, sorted, List.map_mergeSort]
  simp

/-- Sorting gives the only order of the entries in which the keys grow. -/
theorem sorted_eq_of_pairwise (hperm : m.Perm m') (h : m'.Pairwise fun a b => a.1 < b.1) :
    m.sorted = m' := by
  have hnodup' : (keys m').Nodup := List.pairwise_map.mpr (h.imp fun hlt => ne_of_lt hlt)
  have hnodup : (keys m).Nodup := (hperm.map _).nodup_iff.mpr hnodup'
  exact List.Perm.eq_of_pairwise (fun a b _ _ hab hba => absurd hba (lt_asymm hab))
    (pairwise_lt_sorted hnodup) h (m.sorted_perm.trans hperm)

/-- Maps are the same when they are sorted exactly if they have the same entries. -/
theorem sorted_eq_iff (h : (keys m).Nodup) : m.sorted = m'.sorted ↔ m.Perm m' := by
  refine ⟨fun heq => m.sorted_perm.symm.trans (heq ▸ m'.sorted_perm), fun hperm => ?_⟩
  have h' : (keys m').Nodup := (hperm.map _).nodup_iff.mp h
  exact sorted_eq_of_pairwise (hperm.trans m'.sorted_perm.symm) (pairwise_lt_sorted h')

/-! ## Maps with the same keys -/

/-- The maps have the same keys, and related values under each of them. -/
def Matched (R : β → β → Prop) (m m' : Entries String β) : Prop :=
  m.length = m'.length ∧ ∀ e ∈ m, ∃ b, (e.1, b) ∈ m' ∧ R e.2 b

theorem mem_keys_of_mem {k : String} {b : β} (h : (k, b) ∈ m) : k ∈ keys m :=
  List.mem_map.mpr ⟨_, h, rfl⟩

theorem matched_eq_iff (h : (keys m).Nodup) : Matched Eq m m' ↔ m.Perm m' := by
  constructor
  · rintro ⟨hlength, hmatch⟩
    have hsubset : m ⊆ m' := by
      intro e he
      obtain ⟨b, hb, rfl⟩ := hmatch e he
      exact hb
    exact (List.subperm_of_subset (List.Nodup.of_map _ h) hsubset).perm_of_length_le hlength.ge
  · exact fun hperm => ⟨hperm.length_eq, fun e he => ⟨e.2, hperm.mem_iff.mp he, rfl⟩⟩

/-- Where the same keys stand in the same order, matched maps are related entry by entry. -/
theorem forall₂_of_keys_eq (hkeys : keys m = keys m') (h : (keys m).Nodup)
    (hmatch : ∀ e ∈ m, ∃ b, (e.1, b) ∈ m' ∧ R e.2 b) :
    List.Forall₂ (fun e e' => e.1 = e'.1 ∧ R e.2 e'.2) m m' := by
  induction m generalizing m' with
  | nil =>
    obtain rfl : m' = [] := List.map_eq_nil_iff.mp hkeys.symm
    exact .nil
  | cons e m ih =>
    cases m' with
    | nil => cases hkeys
    | cons e' m' =>
      rw [keys_cons, keys_cons, List.cons.injEq] at hkeys
      obtain ⟨hkey, hkeys⟩ := hkeys
      obtain ⟨hnew, hnodup⟩ := List.nodup_cons.mp h
      obtain ⟨⟨b, hb, hrel⟩, hrest⟩ := List.forall_mem_cons.mp hmatch
      refine .cons ⟨hkey, ?_⟩ (ih hkeys hnodup fun f hf => ?_)
      · rcases List.mem_cons.mp hb with rfl | hb
        · exact hrel
        · exact absurd (hkeys.symm ▸ mem_keys_of_mem hb : e.1 ∈ keys m) hnew
      · obtain ⟨b', hb', hrel'⟩ := hrest f hf
        rcases List.mem_cons.mp hb' with rfl | hb'
        · exact absurd (mem_keys_of_mem hf) (hkey ▸ hnew)
        · exact ⟨b', hb', hrel'⟩

/-- Sorted maps are related entry by entry exactly if the maps are matched. -/
theorem forall₂_sorted_iff (h : (keys m).Nodup) (h' : (keys m').Nodup) :
    List.Forall₂ (fun e e' => e.1 = e'.1 ∧ R e.2 e'.2) m.sorted m'.sorted ↔ Matched R m m' := by
  constructor
  · intro hall
    refine ⟨?_, fun e he => ?_⟩
    · rw [← m.sorted_perm.length_eq, ← m'.sorted_perm.length_eq, hall.length_eq]
    · obtain ⟨e', he', hkey, hrel⟩ := exists_mem_of_forall₂ hall.flip (mem_sorted.mpr he)
      exact ⟨e'.2, hkey ▸ mem_sorted.mp he', hrel⟩
  · rintro ⟨hlength, hmatch⟩
    have hsubset : keys m ⊆ keys m' := by
      intro k hk
      obtain ⟨e, he, rfl⟩ := List.mem_map.mp hk
      obtain ⟨b, hb, -⟩ := hmatch e he
      exact mem_keys_of_mem hb
    have hperm : (keys m).Perm (keys m') := by
      refine (List.subperm_of_subset h hsubset).perm_of_length_le ?_
      rw [keys, keys, List.length_map, List.length_map, hlength]
    have hkeys : keys m.sorted = keys m'.sorted := by
      have hpairs : (keys m.sorted).Pairwise (· < ·) :=
        List.pairwise_map.mpr (pairwise_lt_sorted h)
      have hpairs' : (keys m'.sorted).Pairwise (· < ·) :=
        List.pairwise_map.mpr (pairwise_lt_sorted h')
      refine List.Perm.eq_of_pairwise (fun a b _ _ hab hba => absurd hba (lt_asymm hab))
        hpairs hpairs' ?_
      exact ((m.sorted_perm.map _).trans hperm).trans (m'.sorted_perm.map _).symm
    refine forall₂_of_keys_eq hkeys (nodup_keys_sorted h) fun e he => ?_
    obtain ⟨b, hb, hrel⟩ := hmatch e (mem_sorted.mp he)
    exact ⟨b, mem_sorted.mpr hb, hrel⟩

end Markup.Entries
