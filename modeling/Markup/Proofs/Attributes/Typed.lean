import Markup.Proofs.Construction
import Markup.Proofs.Store

/-!
# What attributes are once they are normalised

Where all keys of a mapping are texts, whatever the values are, the attributes that it describes are
a style with distinct properties, listeners with distinct events, and plain attributes with distinct
texts for keys (`AttributeSet.Typed`).  Selectors and keywords describe such attributes too, and
putting one set over another keeps them so (`AttributeSet.typed_of_describe`).  Of the classes
nothing of the kind can be said: the items of a list or a tuple are kept as they are.
-/

namespace Markup

namespace Entries

variable {β : Type} {m later : Entries String β}

theorem nodup_keys_update (h : (keys m).Nodup) (later : Entries String β) :
    (keys (m.update later)).Nodup := by
  induction later generalizing m with
  | nil => exact h
  | cons e later ih => exact ih (nodup_keys_alter h)

/-- Stored entries are updated as the entries are. -/
theorem update_stored (m later : Entries String β) :
    (m.stored Term.text fun b => b).update (later.stored Term.text fun b => b) =
      stored (m.update later) Term.text fun b => b := by
  induction later generalizing m with
  | nil => rfl
  | cons e later ih =>
    have hset := set_stored (m := m) (k := e.1) (v := e.2) (f := fun b => b)
    have hrest := ih (m.set e.1 e.2)
    rw [← hset] at hrest
    exact hrest

end Entries

namespace AttributeSet

/-- A style and listeners have each key once, and so have plain attributes, with texts for keys. -/
structure Typed (s : AttributeSet) : Prop where
  style : ∀ style ∈ s.style, (Entries.keys style).Nodup
  listeners : (Entries.keys s.listeners).Nodup
  attrs : ∃ attrs : Entries String AttributeValue, (Entries.keys attrs).Nodup ∧
    s.attrs = attrs.stored .text fun v => v

theorem typed_empty : empty.Typed where
  style := by simp [empty]
  listeners := List.nodup_nil
  attrs := ⟨[], List.nodup_nil, rfl⟩

variable {s t : AttributeSet}

/-- A style that a value stands for has each property once. -/
theorem nodup_keys_of_styleOf {value : Term} {style : Option Style}
    (h : styleOf value = .ok style) : ∀ given ∈ style, (Entries.keys given).Nodup := by
  rw [styleOf.eq_def] at h
  split at h
  · cases h
    simp
  · cases h
    intro given hgiven
    cases hgiven
    exact Entries.nodup_keys_ofList _
  · obtain ⟨es, -, h⟩ := ok_of_bind h
    obtain ⟨pairs, -, h⟩ := ok_of_bind h
    cases h
    intro given hgiven
    cases hgiven
    exact Entries.nodup_keys_ofList pairs

theorem Typed.addEntry {k : String} {value : Term} (hs : s.Typed)
    (h : s.addEntry (.text k) value = .ok t) : t.Typed := by
  rcases cases_addEntry h with ⟨-, -, -, ⟨-, _, rfl⟩ | ⟨-, _, rfl⟩ | ⟨-, style, hstyle, rfl⟩⟩ |
    ⟨-, ⟨event, fns, -, -, rfl⟩ | ⟨kept, -, rfl⟩⟩
  · exact ⟨hs.style, hs.listeners, hs.attrs⟩
  · exact ⟨hs.style, hs.listeners, hs.attrs⟩
  · exact ⟨nodup_keys_of_styleOf hstyle, hs.listeners, hs.attrs⟩
  · exact ⟨hs.style, Entries.nodup_keys_alter hs.listeners, hs.attrs⟩
  · refine ⟨hs.style, hs.listeners, ?_⟩
    obtain ⟨attrs, hnodup, hattrs⟩ := hs.attrs
    exact ⟨attrs.set k kept, Entries.nodup_keys_alter hnodup, by rw [hattrs, Entries.set_stored]⟩

theorem typed_ofEntries {es : List (Term × Term)} (hes : ∀ e ∈ es, ∃ k, e.1 = .text k)
    (h : ofEntries es = .ok s) : s.Typed := by
  refine foldlM_preserves (fun s₀ e he s₁ hs₀ hentry => ?_) typed_empty h
  obtain ⟨k, hk⟩ := hes e he
  rw [hk] at hentry
  exact hs₀.addEntry hentry

theorem typed_ofKeywords {kw : List (String × Term)} (h : ofKeywords kw = .ok s) : s.Typed := by
  refine typed_ofEntries (fun e he => ?_) h
  obtain ⟨d, -, rfl⟩ := List.mem_map.mp he
  exact ⟨d.1, rfl⟩

/-- The attributes of a call are typed if those of a mapping have texts for keys. -/
theorem typed_ofSource {source : AttributeSource}
    (hsource : ∀ es, source = .entries es → ∀ e ∈ es, ∃ k, e.1 = .text k)
    (h : ofSource source = .ok s) : s.Typed := by
  cases source with
  | selector text =>
    cases h
    exact ⟨typed_empty.style, typed_empty.listeners, typed_empty.attrs⟩
  | entries es => exact typed_ofEntries (hsource es rfl) h

theorem nodup_keys_mergeStyle {base later : Option Style}
    (hbase : ∀ style ∈ base, (Entries.keys style).Nodup)
    (hlater : ∀ style ∈ later, (Entries.keys style).Nodup) :
    ∀ style ∈ mergeStyle base later, (Entries.keys style).Nodup := by
  rw [mergeStyle.eq_def]
  split
  · exact hbase
  · exact hlater
  · next base later =>
    intro style hstyle
    cases hstyle
    exact Entries.nodup_keys_update (hbase base rfl) later

theorem Typed.merge (hs : s.Typed) (ht : t.Typed) : (s.merge t).Typed where
  style := nodup_keys_mergeStyle hs.style ht.style
  listeners := Entries.nodup_keys_extendAll hs.listeners t.listeners
  attrs := by
    obtain ⟨attrs, hnodup, hattrs⟩ := hs.attrs
    obtain ⟨later, -, hlater⟩ := ht.attrs
    refine ⟨attrs.update later, Entries.nodup_keys_update hnodup later, ?_⟩
    rw [AttributeSet.merge, hattrs, hlater, Entries.update_stored]

/-- What a call describes is typed if all keys of the mapping that it gives are texts. -/
theorem typed_of_describe {one two three : Term} {kw : List (String × Term)} {content : String}
    {children : List Term} {roles : Roles} (hroles : Roles.resolve one two three = .ok roles)
    (hkeys : ∀ es, roles.attributes = .entries es → ∀ e ∈ es, ∃ k, e.1 = .text k)
    (h : describe one two three kw = .ok (s, content, children)) : s.Typed := by
  obtain ⟨_, base, hroles', hbase, -, hs⟩ := of_describe h
  obtain rfl := Except.ok.inj (hroles.symm.trans hroles')
  have htyped := typed_ofSource hkeys hbase
  rcases hs with ⟨-, rfl⟩ | ⟨later, hlater, rfl⟩
  · exact htyped
  · exact htyped.merge (typed_ofKeywords hlater)

end AttributeSet

end Markup
