import Markup.Entries
import Mathlib.Data.List.Nodup

/-!
# One map over another

Updating a map by another one and appending all lists of another one are both `overlay`: each entry
of the later map is put where its key is, and combined with the value that is there.  Where the keys
of the later map are distinct and nothing else is taken for them (`Exact`), one more entry goes into
the later map or into what both make (`overlay_alter`).  So it does not matter in which order maps
are put over each other (`overlay_assoc`), and over no entries a map stays as it is
(`nil_overlay`).
-/

namespace Markup.Entries

variable {κ β : Type}

/-- A key that comes later is none of those before. -/
theorem not_mem_keys_of_nodup {m later : Entries κ β} {e : κ × β}
    (h : (keys (m ++ e :: later)).Nodup) : e.1 ∉ keys m := by
  rw [keys, List.map_append] at h
  exact fun hmem => List.disjoint_of_nodup_append h hmem List.mem_cons_self

variable [BEq κ]

/-- A key that no other key is taken for. -/
def Exact (k : κ) : Prop := ∀ j : κ, (j == k) = true ↔ j = k

theorem exact_of_lawful [LawfulBEq κ] (k : κ) : Exact k := fun _ => beq_iff_eq

variable {m later : Entries κ β} {k i : κ}

theorem Exact.has_iff (hk : Exact k) : m.has k = true ↔ k ∈ keys m := by
  rw [has, List.any_eq_true, keys, List.mem_map]
  exact exists_congr fun e => and_congr_right fun _ => hk e.1

/-! ## Altering twice -/

/-- A new key goes to the end. -/
theorem alter_of_not_mem (hk : Exact k) (h : k ∉ keys m) (start : β) (f : β → β) :
    m.alter k start f = m ++ [(k, start)] := by
  induction m with
  | nil => rfl
  | cons e m ih =>
    rw [keys_cons, List.mem_cons, not_or] at h
    rw [alter, if_neg fun heq => h.1 ((hk e.1).mp heq).symm, ih h.2, List.cons_append]

theorem alter_alter_self (hk : Exact k) (m : Entries κ β) (start : β) (f : β → β) (start' : β)
    (g : β → β) :
    (m.alter k start f).alter k start' g = m.alter k (g start) fun v => g (f v) := by
  induction m with
  | nil => rw [alter, alter, alter, if_pos ((hk k).mpr rfl)]
  | cons e m ih =>
    rw [alter, alter]
    by_cases he : e.1 == k
    · rw [if_pos he, if_pos he, alter, if_pos he]
    · rw [if_neg he, if_neg he, alter, if_neg he, ih]

/-- Two keys are altered in any order if one of them is there before. -/
theorem alter_alter_comm (hk : Exact k) (hi : Exact i) (hne : i ≠ k) (hthere : k ∈ keys m)
    (start : β) (f : β → β) (start' : β) (g : β → β) :
    (m.alter i start f).alter k start' g = (m.alter k start' g).alter i start f := by
  induction m with
  | nil => cases hthere
  | cons e m ih =>
    rw [alter, alter]
    by_cases hei : e.1 == i
    · have hek : ¬ (e.1 == k) = true := fun hek =>
        hne (((hi e.1).mp hei).symm.trans ((hk e.1).mp hek))
      rw [if_pos hei, if_neg hek, alter, if_neg hek, alter, if_pos hei]
    · rw [if_neg hei]
      by_cases hek : e.1 == k
      · rw [if_pos hek, alter, if_pos hek, alter, if_neg hei]
      · have hrest : k ∈ keys m := by
          rcases List.mem_cons.mp hthere with heq | hrest
          · exact absurd ((hk e.1).mpr heq.symm) hek
          · exact hrest
        rw [if_neg hek, alter, if_neg hek, alter, if_neg hei, ih hrest]

theorem mem_keys_alter (start : β) (f : β → β) (h : i ∈ keys m) :
    i ∈ keys (m.alter k start f) := by
  rw [keys_alter]
  split
  · exact h
  · exact List.mem_append_left _ h

theorem mem_keys_alter_self (hk : Exact k) (start : β) (f : β → β) :
    k ∈ keys (m.alter k start f) := by
  rw [keys_alter]
  split
  · next hhas => exact hk.has_iff.mp hhas
  · exact List.mem_append_right _ (List.mem_singleton.mpr rfl)

/-- Altering adds no key but the one that is altered. -/
theorem mem_keys_of_mem_alter {start : β} {f : β → β} (h : i ∈ keys (m.alter k start f)) :
    i ∈ keys m ∨ i = k := by
  rw [keys_alter] at h
  split at h
  · exact .inl h
  · simpa using h

theorem exact_of_mem_alter {start : β} {f : β → β} (hm : ∀ i ∈ keys m, Exact i) (hk : Exact k) :
    ∀ i ∈ keys (m.alter k start f), Exact i := by
  intro i hi
  rcases mem_keys_of_mem_alter hi with hold | rfl
  · exact hm i hold
  · exact hk

theorem Exact.nodup_keys_alter {start : β} {f : β → β} (hk : Exact k) (h : (keys m).Nodup) :
    (keys (m.alter k start f)).Nodup := by
  rw [keys_alter]
  split
  · exact h
  · next hnew =>
    refine List.nodup_append'.mpr ⟨h, List.nodup_singleton k, ?_⟩
    exact List.disjoint_singleton.mpr fun hmem => hnew (hk.has_iff.mpr hmem)

/-! ## Putting a map over another one -/

variable {combine : β → β → β}

/-- Puts the entries of a map over another one, combining what is under a key with what comes. -/
def overlay (combine : β → β → β) (m later : Entries κ β) : Entries κ β :=
  later.foldl (fun m e => m.alter e.1 e.2 (combine · e.2)) m

theorem update_eq_overlay (m later : Entries κ β) :
    m.update later = m.overlay (fun _ v => v) later := rfl

theorem extendAll_eq_overlay (m later : Entries κ (List β)) :
    m.extendAll later = m.overlay (· ++ ·) later := rfl

@[simp] theorem overlay_nil (m : Entries κ β) : m.overlay combine [] = m := rfl

theorem overlay_cons (m : Entries κ β) (e : κ × β) (later : Entries κ β) :
    m.overlay combine (e :: later) =
      (m.alter e.1 e.2 (combine · e.2)).overlay combine later := rfl

/-- Putting a map over another one adds no keys but those of the two. -/
theorem mem_keys_of_mem_overlay (h : i ∈ keys (m.overlay combine later)) :
    i ∈ keys m ∨ i ∈ keys later := by
  induction later generalizing m with
  | nil => exact .inl h
  | cons e later ih =>
    rw [keys_cons, List.mem_cons]
    rw [overlay_cons] at h
    rcases ih h with hfirst | hlater
    · exact (mem_keys_of_mem_alter hfirst).imp_right .inl
    · exact .inr (.inr hlater)

/-- New and distinct keys go to the end in their order. -/
theorem overlay_of_nodup (hexact : ∀ i ∈ keys later, Exact i) (h : (keys (m ++ later)).Nodup) :
    m.overlay combine later = m ++ later := by
  induction later generalizing m with
  | nil => exact (List.append_nil m).symm
  | cons e later ih =>
    obtain ⟨he, hlater⟩ := List.forall_mem_cons.mp hexact
    have hput : m.alter e.1 e.2 (combine · e.2) = m ++ [e] :=
      alter_of_not_mem he (not_mem_keys_of_nodup h) e.2 _
    rw [List.append_cons] at h ⊢
    rw [overlay_cons, hput, ih hlater h]

/-- Over no entries a map stays as it is. -/
theorem nil_overlay (hexact : ∀ i ∈ keys m, Exact i) (h : (keys m).Nodup) :
    overlay combine [] m = m :=
  overlay_of_nodup hexact h

/-- What no later entry touches is altered before or after. -/
theorem overlay_alter_comm (hk : Exact k) (hexact : ∀ i ∈ keys later, Exact i)
    (hnot : k ∉ keys later) (hthere : k ∈ keys m) (start : β) (f : β → β) :
    (m.overlay combine later).alter k start f = (m.alter k start f).overlay combine later := by
  induction later generalizing m with
  | nil => rfl
  | cons e later ih =>
    obtain ⟨he, hlater⟩ := List.forall_mem_cons.mp hexact
    rw [keys_cons, List.mem_cons, not_or] at hnot
    rw [overlay_cons, overlay_cons, ih hlater hnot.2 (mem_keys_alter _ _ hthere),
      alter_alter_comm hk he (Ne.symm hnot.1) hthere]

/-- One more entry goes into the later map, or into what both make. -/
theorem overlay_alter (hassoc : ∀ u v x, combine (combine u v) x = combine u (combine v x))
    (hk : Exact k) (hexact : ∀ i ∈ keys later, Exact i) (h : (keys later).Nodup)
    (m : Entries κ β) (v : β) :
    (m.overlay combine later).alter k v (combine · v) =
      m.overlay combine (later.alter k v (combine · v)) := by
  induction later generalizing m with
  | nil => rfl
  | cons e later ih =>
    obtain ⟨he, hlater⟩ := List.forall_mem_cons.mp hexact
    obtain ⟨hnot, hrest⟩ := List.nodup_cons.mp h
    rw [overlay_cons, alter]
    by_cases hek : e.1 == k
    · -- the key is the first one, and no later entry touches it
      obtain rfl := (hk e.1).mp hek
      rw [if_pos hek, overlay_cons,
        overlay_alter_comm hk hlater hnot (mem_keys_alter_self hk _ _), alter_alter_self hk]
      simp only [hassoc]
    · rw [if_neg hek, overlay_cons, ih hlater hrest]

/-- It does not matter in which order maps are put over each other. -/
theorem overlay_assoc (hassoc : ∀ u v x, combine (combine u v) x = combine u (combine v x))
    {c : Entries κ β} (hexact : ∀ i ∈ keys later, Exact i) (h : (keys later).Nodup)
    (hc : ∀ i ∈ keys c, Exact i) :
    (m.overlay combine later).overlay combine c =
      m.overlay combine (later.overlay combine c) := by
  induction c generalizing later with
  | nil => rfl
  | cons e c ih =>
    obtain ⟨he, hrest⟩ := List.forall_mem_cons.mp hc
    rw [overlay_cons, overlay_cons, overlay_alter hassoc he hexact h,
      ih (exact_of_mem_alter hexact he) (he.nodup_keys_alter h) hrest]

theorem update_set (hk : Exact k) (hexact : ∀ i ∈ keys later, Exact i) (h : (keys later).Nodup)
    (m : Entries κ β) (v : β) : (m.update later).set k v = m.update (later.set k v) := by
  simp only [update_eq_overlay]
  exact overlay_alter (fun _ _ _ => rfl) hk hexact h m v

theorem extendAll_extend {later : Entries κ (List β)} (hk : Exact k)
    (hexact : ∀ i ∈ keys later, Exact i) (h : (keys later).Nodup) (m : Entries κ (List β))
    (vs : List β) : (m.extendAll later).extend k vs = m.extendAll (later.extend k vs) := by
  simp only [extendAll_eq_overlay]
  exact overlay_alter List.append_assoc hk hexact h m vs

theorem update_assoc {c : Entries κ β} (hexact : ∀ i ∈ keys later, Exact i)
    (h : (keys later).Nodup) (hc : ∀ i ∈ keys c, Exact i) :
    (m.update later).update c = m.update (later.update c) := by
  simp only [update_eq_overlay]
  exact overlay_assoc (fun _ _ _ => rfl) hexact h hc

theorem nil_update (hexact : ∀ i ∈ keys m, Exact i) (h : (keys m).Nodup) : update [] m = m := by
  rw [update_eq_overlay, nil_overlay hexact h]

end Markup.Entries
