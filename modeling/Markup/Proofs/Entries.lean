import Markup.Proofs.Entries.Overlay
import Mathlib.Data.List.Induction

/-!
# The keys of a map

Setting or updating adds no keys and no values but those that are given.  A key that is not set goes
to the end of a map, so updating a map by entries with new and distinct keys appends them.  Of
entries with the same key the last one counts (`get?_ofList`), while lists under a key grow at their
ends (`listed_extendAll`, `listed_extendEach`).
-/

namespace Markup.Entries

/-- Values are replaced under the same keys. -/
theorem keys_map_snd {κ β γ : Type} (m : Entries κ β) (f : κ × β → γ) :
    keys (m.map fun e => (e.1, f e)) = keys m :=
  List.map_map

section Keys

variable {κ β : Type} [BEq κ] {m later : Entries κ β} {k i : κ} {v : β}

theorem mem_keys_set (h : i ∈ keys (m.set k v)) : i ∈ keys m ∨ i = k := mem_keys_of_mem_alter h

theorem mem_keys_update (h : i ∈ keys (m.update later)) : i ∈ keys m ∨ i ∈ keys later := by
  rw [update_eq_overlay] at h
  exact mem_keys_of_mem_overlay h

/-- A value that is held after a key was set was held before, or it was set. -/
theorem value_of_mem_set {e : κ × β} (h : e ∈ m.set k v) : e.2 ∈ m.map (·.2) ∨ e.2 = v := by
  induction m with
  | nil =>
    rw [set, alter, List.mem_singleton] at h
    rw [h]
    exact .inr rfl
  | cons first m ih =>
    rw [List.map_cons, List.mem_cons]
    rw [set, alter] at h
    split at h
    · rcases List.mem_cons.mp h with rfl | hrest
      · exact .inr rfl
      · exact .inl (.inr (List.mem_map_of_mem hrest))
    · rcases List.mem_cons.mp h with rfl | hrest
      · exact .inl (.inl rfl)
      · exact (ih hrest).imp_left .inr

/-- The values of a map are among those of the entries that it was made of. -/
theorem value_of_mem_ofList {es : List (κ × β)} {e : κ × β} (h : e ∈ ofList es) :
    e.2 ∈ es.map (·.2) := by
  induction es using List.reverseRecOn generalizing e with
  | nil => cases h
  | append_singleton es d ih =>
    rw [ofList, update_append] at h
    rw [List.map_append, List.mem_append]
    rcases value_of_mem_set (m := ofList es) h with hold | hnew
    · obtain ⟨e', he', heq⟩ := List.mem_map.mp hold
      exact .inl (heq ▸ ih he')
    · exact .inr (by simp [hnew])

theorem exists_mem_of_get? (h : m.get? k = some v) : ∃ e ∈ m, e.2 = v := by
  rw [get?, Option.map_eq_some_iff] at h
  obtain ⟨e, he, rfl⟩ := h
  exact ⟨e, List.mem_of_find?_eq_some he, rfl⟩

theorem get?_append (m later : Entries κ β) (k : κ) :
    get? (m ++ later) k = (m.get? k).or (later.get? k) := by
  rw [get?, List.find?_append, get?, get?]
  cases m.find? (·.1 == k) <;> rfl

theorem get?_map_snd {γ : Type} (m : Entries κ β) (f : β → γ) (k : κ) :
    get? (m.map fun e => (e.1, f e.2)) k = (m.get? k).map f := by
  induction m with
  | nil => rfl
  | cons e m ih =>
    rw [List.map_cons, get?_cons, get?_cons, ih]
    by_cases hk : e.1 == k <;> simp [hk]

/-- The value of the last entry with a key. -/
def last? (es : List (κ × β)) (k : κ) : Option β := get? es.reverse k

theorem last?_map_snd {γ : Type} (es : List (κ × β)) (f : β → γ) (k : κ) :
    last? (es.map fun e => (e.1, f e.2)) k = (last? es k).map f := by
  rw [last?, last?, ← List.map_reverse, get?_map_snd]

end Keys

variable {κ β : Type} [BEq κ] [LawfulBEq κ] {m later : Entries κ β} {k : κ} {v : β}

theorem mem_of_get? (h : m.get? k = some v) : (k, v) ∈ m := by
  rw [get?, Option.map_eq_some_iff] at h
  obtain ⟨e, he, rfl⟩ := h
  have hk : e.1 = k := by simpa using List.find?_some he
  rw [← hk]
  exact List.mem_of_find?_eq_some he

theorem has_iff_mem : m.has k = true ↔ k ∈ keys m := (exact_of_lawful k).has_iff

theorem get?_isSome_iff_mem : (m.get? k).isSome ↔ k ∈ keys m := by
  simp [get?, keys]

theorem not_mem_of_get? (h : m.get? k = none) : k ∉ keys m := by
  rw [← get?_isSome_iff_mem, h]
  exact Bool.false_ne_true

theorem get?_append_of_not_mem (h : k ∉ keys m) : get? (m ++ later) k = get? later k := by
  induction m with
  | nil => rfl
  | cons e m ih =>
    rw [keys_cons, List.mem_cons, not_or] at h
    rw [List.cons_append, get?_cons, if_neg fun heq => h.1 (eq_of_beq heq).symm, ih h.2]

/-- A new key goes to the end. -/
theorem set_of_not_mem (h : k ∉ keys m) : m.set k v = m ++ [(k, v)] :=
  alter_of_not_mem (exact_of_lawful k) h v _

/-- New and distinct keys go to the end in their order. -/
theorem update_of_nodup (h : (keys (m ++ later)).Nodup) : m.update later = m ++ later := by
  rw [update_eq_overlay, overlay_of_nodup (fun i _ => exact_of_lawful i) h]

/-! ## What is held under a key -/

variable {i : κ}

theorem get?_alter (m : Entries κ β) (k : κ) (start : β) (f : β → β) (i : κ) :
    (m.alter k start f).get? i = if k == i then some ((m.get? k).elim start f) else m.get? i := by
  induction m with
  | nil => simp [alter, get?_cons]
  | cons e m ih =>
    rw [alter]
    by_cases hk : e.1 == k
    · rw [if_pos hk, get?_cons, get?_cons, if_pos hk, get?_cons, eq_of_beq hk]
      by_cases hi : k == i
      · rw [if_pos hi, if_pos hi]
        rfl
      · rw [if_neg hi, if_neg hi, if_neg hi]
    · rw [if_neg hk, get?_cons, get?_cons, ih, get?_cons, if_neg hk]
      by_cases hi : e.1 == i
      · have hne : ¬ (k == i) = true := by
          intro heq
          exact hk (by rw [eq_of_beq hi, eq_of_beq heq]; exact beq_self_eq_true i)
        rw [if_pos hi, if_neg hne, if_pos hi]
      · rw [if_neg hi, if_neg hi]

theorem get?_set (m : Entries κ β) (k : κ) (v : β) (i : κ) :
    (m.set k v).get? i = if k == i then some v else m.get? i := by
  rw [set, get?_alter]
  cases m.get? k <;> rfl

/-- Of entries with the same key the last one counts. -/
theorem get?_ofList (es : List (κ × β)) (k : κ) : (ofList es).get? k = last? es k := by
  induction es using List.reverseRecOn with
  | nil => rfl
  | append_singleton es e ih =>
    have hlast : ofList (es ++ [e]) = (ofList es).set e.1 e.2 := by
      rw [ofList, update_append]
      rfl
    rw [hlast, get?_set, ih, last?, last?, List.reverse_append, List.reverse_singleton,
      List.singleton_append, get?_cons]

theorem nodup_keys_alter {start : β} {f : β → β} (h : (keys m).Nodup) :
    (keys (m.alter k start f)).Nodup :=
  (exact_of_lawful k).nodup_keys_alter h

theorem nodup_keys_ofList (es : List (κ × β)) : (keys (ofList es)).Nodup := by
  induction es using List.reverseRecOn with
  | nil => exact List.nodup_nil
  | append_singleton es e ih =>
    rw [ofList, update_append]
    exact nodup_keys_alter ih

/-- Where no key is repeated, each entry is the one of its key. -/
theorem get?_of_mem (h : (keys m).Nodup) (hmem : (k, v) ∈ m) : m.get? k = some v := by
  induction m with
  | nil => cases hmem
  | cons e m ih =>
    obtain ⟨hnew, hrest⟩ := List.nodup_cons.mp h
    rw [get?_cons]
    rcases List.mem_cons.mp hmem with rfl | hmem
    · simp
    · have hne : ¬e.1 == k := fun heq =>
        hnew (List.mem_map.mpr ⟨(k, v), hmem, (eq_of_beq heq).symm⟩)
      rw [if_neg hne, ih hrest hmem]

theorem get?_of_not_mem (h : k ∉ keys m) : m.get? k = none := by
  have hnone : get? (m ++ []) k = none := get?_append_of_not_mem h
  rwa [List.append_nil] at hnone

/-! ### Lists under keys -/

/-- The items under a key, none if there is no list. -/
def listed (m : Entries κ (List β)) (k : κ) : List β := (m.get? k).getD []

variable {m later : Entries κ (List β)} {vs : List β}

theorem listed_extend (m : Entries κ (List β)) (k : κ) (vs : List β) (i : κ) :
    (m.extend k vs).listed i = m.listed i ++ if k == i then vs else [] := by
  rw [listed, listed, extend, get?_alter]
  by_cases hk : k == i
  · rw [if_pos hk, if_pos hk, eq_of_beq hk]
    cases m.get? i <;> rfl
  · rw [if_neg hk, if_neg hk, List.append_nil]

theorem nodup_keys_extendAll (h : (keys m).Nodup) (later : Entries κ (List β)) :
    (keys (m.extendAll later)).Nodup := by
  induction later generalizing m with
  | nil => exact h
  | cons e later ih => exact ih (nodup_keys_alter h)

/-- What is listed later goes behind. -/
theorem listed_extendAll (h : (keys later).Nodup) (m : Entries κ (List β)) (i : κ) :
    (m.extendAll later).listed i = m.listed i ++ later.listed i := by
  induction later generalizing m with
  | nil => exact (List.append_nil _).symm
  | cons e later ih =>
    obtain ⟨hnew, hrest⟩ := List.nodup_cons.mp h
    have hstep : m.extendAll (e :: later) = (m.extend e.1 e.2).extendAll later := rfl
    rw [hstep, ih hrest, listed_extend, List.append_assoc]
    by_cases hi : e.1 == i
    · have hnone : get? later i = none := by
        refine get?_of_not_mem ?_
        rw [← eq_of_beq hi]
        exact hnew
      simp [listed, get?_cons, hi, hnone]
    · simp [listed, get?_cons, hi]

/-- Items put one by one at the end of the lists of their keys. -/
def extendEach (m : Entries κ (List β)) (items : List (κ × β)) : Entries κ (List β) :=
  items.foldl (fun m e => m.extend e.1 [e.2]) m

/-- The items of all lists, each with its key. -/
def itemized (m : Entries κ (List β)) : List (κ × β) :=
  m.flatMap fun e => e.2.map fun v => (e.1, v)

/-- The items with a key. -/
def itemsFor (items : List (κ × β)) (k : κ) : List β := (items.filter (·.1 == k)).map (·.2)

theorem listed_extendEach (m : Entries κ (List β)) (items : List (κ × β)) (k : κ) :
    (m.extendEach items).listed k = m.listed k ++ itemsFor items k := by
  induction items generalizing m with
  | nil => exact (List.append_nil _).symm
  | cons e items ih =>
    have hstep : m.extendEach (e :: items) = (m.extend e.1 [e.2]).extendEach items := rfl
    rw [hstep, ih, listed_extend, List.append_assoc, itemsFor, itemsFor, List.filter_cons]
    by_cases hk : e.1 == k <;> simp [hk]

/-- Where each key has one list, the items with the key are those of the list. -/
theorem itemsFor_itemized (h : (keys m).Nodup) (k : κ) : itemsFor m.itemized k = m.listed k := by
  induction m with
  | nil => rfl
  | cons e m ih =>
    obtain ⟨hnew, hrest⟩ := List.nodup_cons.mp h
    have hsplit : itemsFor (itemized (e :: m)) k =
        itemsFor (e.2.map fun v => (e.1, v)) k ++ itemsFor (itemized m) k := by
      simp [itemsFor, itemized]
    rw [hsplit, ih hrest, listed, listed, get?_cons]
    by_cases hk : e.1 == k
    · have hnone : get? m k = none := get?_of_not_mem (eq_of_beq hk ▸ hnew)
      rw [if_pos hk, hnone]
      simp [itemsFor, List.filter_map, Function.comp_def, hk]
    · rw [if_neg hk]
      simp [itemsFor, List.filter_map, Function.comp_def, hk]

end Markup.Entries
