import Markup.Attributes
import Markup.Proofs.Computation
import Markup.Proofs.Entries

/-!
# What normalised attributes keep apart

The keys `id`, `class` and `style` have fields of their own, so they are never among the plain
attributes (`AttributeSet.Separates`), however attributes are given and put together.
-/

namespace Markup

/-- What stores an atom is that atom. -/
theorem Term.eq_atom_of_toValue {t : Term} {a : Atom} (h : t.toValue = .atom a) : t = .atom a := by
  cases t with
  | atom b =>
    cases h
    rfl
  | object id o => cases h

namespace AttributeSet

/-- The keys that have fields of their own. -/
def ownKeys : List String := ["id", "class", "style"]

/-- No plain attribute has a key that has a field of its own. -/
def Separates (s : AttributeSet) : Prop :=
  ∀ k ∈ Entries.keys s.attrs, ∀ name ∈ ownKeys, (k == .text name) = false

theorem separates_empty : empty.Separates := by
  intro k hk
  cases hk

variable {s t : AttributeSet}

/-- What one more entry does: it sets a field, adds to the listeners, or sets a plain attribute. -/
theorem cases_addEntry {key value : Term} (h : s.addEntry key value = .ok t) :
    (∃ name ∈ ownKeys, (key == .text name) = true ∧
      ((name = "id" ∧ ∃ id, t = { s with id }) ∨
        (name = "class" ∧ ∃ classes, t = { s with classes }) ∨
        (name = "style" ∧ ∃ style, styleOf value = .ok style ∧ t = { s with style }))) ∨
    (∀ name ∈ ownKeys, (key == .text name) = false) ∧
      ((∃ event fns, listenersOf key value = .ok (some fns) ∧ eventOf key = .ok event ∧
        t = { s with listeners := s.listeners.extend event fns }) ∨
      ∃ kept, listenersOf key value = .ok none ∧ t = { s with attrs := s.attrs.set key kept }) := by
  rw [addEntry] at h
  by_cases hid : (key == .text "id") = true
  · rw [if_pos hid] at h
    refine .inl ⟨"id", by simp [ownKeys], hid, .inl ⟨rfl, ?_⟩⟩
    by_cases hnone : value.isNone = true
    · rw [if_pos hnone] at h
      cases h
      exact ⟨none, rfl⟩
    · rw [if_neg hnone] at h
      obtain ⟨id, -, h⟩ := ok_of_bind h
      cases h
      exact ⟨some id, rfl⟩
  rw [if_neg hid] at h
  by_cases hclass : (key == .text "class") = true
  · rw [if_pos hclass] at h
    obtain ⟨classes, -, h⟩ := ok_of_bind h
    cases h
    exact .inl ⟨"class", by simp [ownKeys], hclass, .inr (.inl ⟨rfl, classes, rfl⟩)⟩
  rw [if_neg hclass] at h
  by_cases hstyle : (key == .text "style") = true
  · rw [if_pos hstyle] at h
    obtain ⟨style, hread, h⟩ := ok_of_bind h
    cases h
    exact .inl ⟨"style", by simp [ownKeys], hstyle, .inr (.inr ⟨rfl, style, hread, rfl⟩)⟩
  rw [if_neg hstyle] at h
  refine .inr ⟨fun name hname => Bool.eq_false_iff.mpr ?_, ?_⟩
  · simp only [ownKeys, List.mem_cons, List.not_mem_nil, or_false] at hname
    rcases hname with rfl | rfl | rfl
    · exact hid
    · exact hclass
    · exact hstyle
  obtain ⟨listeners, hlisteners, h⟩ := ok_of_bind h
  cases listeners with
  | some fns =>
    obtain ⟨event, hevent, h⟩ := ok_of_bind h
    cases h
    exact .inl ⟨event, fns, hlisteners, hevent, rfl⟩
  | none =>
    obtain ⟨kept, -, h⟩ := ok_of_bind h
    cases h
    exact .inr ⟨kept, hlisteners, rfl⟩

/-- What one more entry does to the plain attributes. -/
theorem attrs_addEntry {key value : Term} (h : s.addEntry key value = .ok t) :
    t.attrs = s.attrs ∨ (∀ name ∈ ownKeys, (key == .text name) = false) ∧
      ∃ kept, t.attrs = s.attrs.set key kept := by
  rcases cases_addEntry h with
    ⟨-, -, -, ⟨-, _, rfl⟩ | ⟨-, _, rfl⟩ | ⟨-, _, -, rfl⟩⟩ |
    ⟨hplain, ⟨_, _, -, -, rfl⟩ | ⟨kept, -, rfl⟩⟩
  · exact .inl rfl
  · exact .inl rfl
  · exact .inl rfl
  · exact .inl rfl
  · exact .inr ⟨hplain, kept, rfl⟩

theorem separates_addEntry {key value : Term} (hs : s.Separates)
    (h : s.addEntry key value = .ok t) : t.Separates := by
  intro k hk
  rcases attrs_addEntry h with hsame | ⟨hplain, kept, hset⟩
  · rw [hsame] at hk
    exact hs k hk
  · rw [hset] at hk
    rcases Entries.mem_keys_set hk with hold | rfl
    · exact hs k hold
    · exact hplain

theorem separates_ofEntries {es : List (Term × Term)} (h : ofEntries es = .ok s) : s.Separates :=
  foldlM_preserves (fun _ _ _ _ => separates_addEntry) separates_empty h

theorem separates_ofSource {source : AttributeSource} (h : ofSource source = .ok s) :
    s.Separates := by
  cases source with
  | selector text =>
    cases h
    exact separates_empty
  | entries es => exact separates_ofEntries h

/-- Putting one set over another adds no keys. -/
theorem Separates.merge (hs : s.Separates) (ht : t.Separates) : (s.merge t).Separates := by
  intro k hk
  rcases Entries.mem_keys_update hk with hold | hnew
  · exact hs k hold
  · exact ht k hnew

/-- Attributes that are stored with texts for keys have no key with a field of its own. -/
theorem Separates.not_mem_keys {attrs : Entries String AttributeValue} (hs : s.Separates)
    (hattrs : s.attrs.map (fun e => (e.1.toValue, Value.atom e.2.toAtom)) =
      attrs.map fun e => (.text e.1, .atom e.2.toAtom))
    {name : String} (hname : name ∈ ownKeys) : name ∉ Entries.keys attrs := by
  intro hmem
  obtain ⟨e, he, rfl⟩ := List.mem_map.mp hmem
  have hstored : (Value.text e.1, Value.atom e.2.toAtom) ∈
      s.attrs.map fun e => (e.1.toValue, Value.atom e.2.toAtom) := by
    rw [hattrs]
    exact List.mem_map_of_mem he
  obtain ⟨d, hd, heq⟩ := List.mem_map.mp hstored
  have hkey : d.1 = .text e.1 := Term.eq_atom_of_toValue (congrArg Prod.fst heq)
  have hother := hs d.1 (List.mem_map_of_mem hd) e.1 hname
  rw [hkey] at hother
  simp at hother

end AttributeSet

end Markup
