import Markup.Proofs.Attributes.Typed

/-!
# Attributes over attributes

Sets of attributes are put over each other in any order (`AttributeSet.merge_assoc`), and no
attributes at all change nothing below or above others.  The later id counts, the classes and the
listeners of an event follow each other, and styles and plain attributes are updated in place: each
is a way to combine values that has an order of its own, which the maps keep together with the order
of their keys.
-/

namespace Markup

/-! ## Keys that are texts -/

/-- No other key is taken for a text. -/
theorem Term.exact_text (s : String) : Entries.Exact (Term.text s) := by
  intro t
  rw [beq_def, same, Bool.or_eq_true, eq_text_iff, or_iff_right_iff_imp]
  intro h
  cases t with
  | atom a => rw [eq_of_beq h]
  | object id o => cases h

/-- Different texts are stored as different keys. -/
theorem Entries.nodup_keys_stored_text {β γ : Type} {m : Entries String β}
    (h : (Entries.keys m).Nodup) (f : β → γ) : (Entries.keys (m.stored Term.text f)).Nodup := by
  have hkeys : Entries.keys (m.stored Term.text f) = (Entries.keys m).map Term.text := by
    simp [Entries.keys, Entries.stored, Function.comp_def]
  rw [hkeys]
  exact h.map fun s t heq => Atom.text.inj (Term.atom.inj heq)

namespace AttributeSet

variable {a b c s : AttributeSet}

theorem Typed.exact_keys (h : s.Typed) : ∀ k ∈ Entries.keys s.attrs, Entries.Exact k := by
  intro k hk
  obtain ⟨attrs, -, hattrs⟩ := h.attrs
  rw [hattrs] at hk
  obtain ⟨e, he, rfl⟩ := List.mem_map.mp hk
  obtain ⟨d, -, rfl⟩ := List.mem_map.mp he
  exact Term.exact_text d.1

theorem Typed.nodup_keys (h : s.Typed) : (Entries.keys s.attrs).Nodup := by
  obtain ⟨attrs, hnodup, hattrs⟩ := h.attrs
  rw [hattrs]
  exact Entries.nodup_keys_stored_text hnodup _

/-! ## The order does not matter -/

theorem mergeStyle_assoc {one two three : Option Style}
    (htwo : ∀ style ∈ two, (Entries.keys style).Nodup) :
    mergeStyle (mergeStyle one two) three = mergeStyle one (mergeStyle two three) := by
  cases three with
  | none => rfl
  | some three =>
    cases two with
    | none => cases one <;> rfl
    | some two =>
      cases one with
      | none => rfl
      | some one =>
        exact congrArg some (Entries.update_assoc (fun i _ => Entries.exact_of_lawful i)
          (htwo two rfl) fun i _ => Entries.exact_of_lawful i)

theorem merge_assoc (hb : b.Typed) (hc : c.Typed) :
    (a.merge b).merge c = a.merge (b.merge c) := by
  have hlisteners : (a.listeners.extendAll b.listeners).extendAll c.listeners =
      a.listeners.extendAll (b.listeners.extendAll c.listeners) :=
    Entries.overlay_assoc List.append_assoc (fun i _ => Entries.exact_of_lawful i) hb.listeners
      fun i _ => Entries.exact_of_lawful i
  have hattrs : (a.attrs.update b.attrs).update c.attrs =
      a.attrs.update (b.attrs.update c.attrs) :=
    Entries.update_assoc hb.exact_keys hb.nodup_keys hc.exact_keys
  rw [merge, merge, merge, merge, AttributeSet.mk.injEq]
  exact ⟨Option.or_assoc.symm, List.append_assoc .., mergeStyle_assoc hb.style, hlisteners, hattrs⟩

theorem merge_empty (s : AttributeSet) : s.merge empty = s := by
  rw [merge, empty]
  simp [mergeStyle]

theorem empty_merge (hs : s.Typed) : empty.merge s = s := by
  have hstyle : mergeStyle none s.style = s.style := by cases s.style <;> rfl
  have hlisteners : Entries.extendAll [] s.listeners = s.listeners :=
    Entries.nil_overlay (fun i _ => Entries.exact_of_lawful i) hs.listeners
  have hattrs : Entries.update [] s.attrs = s.attrs :=
    Entries.nil_update hs.exact_keys hs.nodup_keys
  rw [merge, empty, hstyle, hlisteners, hattrs, Option.or_none, List.nil_append]

/-- Attributes over attributes are a monoid, whose unit is no attributes at all. -/
theorem merge_monoid (ha : a.Typed) (hb : b.Typed) (hc : c.Typed) :
    (a.merge b).Typed ∧ (a.merge b).merge c = a.merge (b.merge c) ∧
      empty.merge a = a ∧ a.merge empty = a :=
  ⟨ha.merge hb, merge_assoc hb hc, empty_merge ha, merge_empty a⟩

/-- Attributes that share their keys with others of this kind, and may share an event. -/
def titled (id : Option String) (style : Option Style) (event : String) (title : AttributeValue) :
    AttributeSet where
  id := id
  classes := [.text event]
  style := style
  listeners := [(event, [.object 1 (.listener (.text "f") none none [])]),
    ("input", [.object 2 (.listener (.text "g") none none [])])]
  attrs := [(.text "lang", .none), (.text "title", title)]

/-- Three sets with common events, keys and properties, one of them with an empty style. -/
theorem merge_monoid_titled :
    let a := titled (some "a") (some [("color", "red"), ("top", "0")]) "click" (.flag true)
    let b := titled none (some []) "focus" .none
    let c := titled (some "c") (some [("left", "1"), ("color", "blue")]) "click" (.text "t")
    (a.merge b).merge c = a.merge (b.merge c) ∧ empty.merge a = a ∧ a.merge empty = a ∧
      (a.merge (b.merge c)).style = some [("color", "blue"), ("top", "0"), ("left", "1")] := by
  have htyped : ∀ id style event title, event ≠ "input" →
      (∀ given ∈ style, (Entries.keys given).Nodup) → (titled id style event title).Typed := by
    intro id style event title hevent hstyle
    exact ⟨hstyle, by simpa [titled, Entries.keys] using hevent,
      [("lang", .none), ("title", title)], by simp [Entries.keys], rfl⟩
  obtain ⟨-, hassoc, hleft, hright⟩ := merge_monoid
    (htyped (some "a") (some [("color", "red"), ("top", "0")]) "click" (.flag true) (by decide)
      (by simp [Entries.keys]))
    (htyped none (some []) "focus" .none (by decide) (by simp [Entries.keys]))
    (htyped (some "c") (some [("left", "1"), ("color", "blue")]) "click" (.text "t") (by decide)
      (by simp [Entries.keys]))
  exact ⟨hassoc, hleft, hright, by decide⟩

end AttributeSet

end Markup
