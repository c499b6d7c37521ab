import Markup.Proofs.Attributes.Events
import Markup.Proofs.Attributes.Merging

/-!
# Attributes read again

What attributes are once they are normalised can be written as a mapping again: an entry for each
field of its own, one for each event with its listeners, and the plain attributes.  Reading this
mapping gives the same attributes in the same order (`AttributeSet.ofEntries_restated`).  A plain
attribute stays plain, whatever its key is, because no text, truth value or missing value can be
called; and an event stays an event, because its key has been told for one (`AttributeSet.Legible`).
-/

namespace Markup

open Vocabulary (listenerMark)

namespace AttributeSet

variable {s t : AttributeSet}

/-! ## Keys that have been told -/

/--
The key of each event begins like that of a listener, and of the key of each plain attribute it can
be told whether it does: none is too long for that.
-/
structure Legible (s : AttributeSet) : Prop where
  events : ∀ event ∈ Entries.keys s.listeners,
    beginsListener (.text (listenerMark ++ event)) = .ok true
  attrs : ∀ k ∈ Entries.keys s.attrs, ∃ b, beginsListener k = .ok b

theorem legible_empty : empty.Legible := ⟨List.forall_mem_nil _, List.forall_mem_nil _⟩

theorem Legible.addEntry {k : String} {value : Term} (hs : s.Legible)
    (h : s.addEntry (.text k) value = .ok t) : t.Legible := by
  rcases cases_addEntry h with ⟨-, -, -, ⟨-, _, rfl⟩ | ⟨-, _, rfl⟩ | ⟨-, _, -, rfl⟩⟩ |
    ⟨-, ⟨event, fns, hlisteners, hevent, rfl⟩ | ⟨kept, hlisteners, rfl⟩⟩
  · exact ⟨hs.events, hs.attrs⟩
  · exact ⟨hs.events, hs.attrs⟩
  · exact ⟨hs.events, hs.attrs⟩
  · obtain ⟨begins, hbegins, hchosen⟩ := ok_of_bind hlisteners
    cases begins with
    | false => cases hchosen
    | true =>
      obtain ⟨event', -, rfl⟩ := (beginsListener_text hbegins).mp rfl
      rw [eventOf_mark, Except.ok.injEq] at hevent
      subst hevent
      refine ⟨fun event hmem => ?_, hs.attrs⟩
      rcases Entries.mem_keys_of_mem_alter hmem with hold | rfl
      · exact hs.events event hold
      · exact hbegins
  · obtain ⟨begins, hbegins, -⟩ := ok_of_bind hlisteners
    refine ⟨hs.events, fun key hmem => ?_⟩
    rcases Entries.mem_keys_set hmem with hold | rfl
    · exact hs.attrs key hold
    · exact ⟨begins, hbegins⟩

theorem legible_ofEntries {es : List (Term × Term)} (hes : ∀ e ∈ es, ∃ k, e.1 = .text k)
    (h : ofEntries es = .ok s) : s.Legible := by
  refine foldlM_preserves (fun s₀ e he s₁ hs₀ hentry => ?_) legible_empty h
  obtain ⟨k, hk⟩ := hes e he
  rw [hk] at hentry
  exact hs₀.addEntry hentry

theorem Legible.merge (hs : s.Legible) (ht : t.Legible) : (s.merge t).Legible where
  events event hmem := by
    rcases Entries.mem_keys_of_mem_overlay hmem with hbase | hlater
    · exact hs.events event hbase
    · exact ht.events event hlater
  attrs k hmem := by
    rcases Entries.mem_keys_update hmem with hbase | hlater
    · exact hs.attrs k hbase
    · exact ht.attrs k hlater

/-- What a call describes is legible if all keys of the mapping that it gives are texts. -/
theorem legible_of_describe {one two three : Term} {kw : List (String × Term)} {content : String}
    {children : List Term} {roles : Roles} (hroles : Roles.resolve one two three = .ok roles)
    (hkeys : ∀ es, roles.attributes = .entries es → ∀ e ∈ es, ∃ k, e.1 = .text k)
    (h : describe one two three kw = .ok (s, content, children)) : s.Legible := by
  obtain ⟨_, base, hroles', hbase, -, hs⟩ := of_describe h
  obtain rfl := Except.ok.inj (hroles.symm.trans hroles')
  have hlegible : base.Legible := by
    cases hsource : roles.attributes with
    | selector text =>
      rw [hsource] at hbase
      cases hbase
      exact ⟨List.forall_mem_nil _, List.forall_mem_nil _⟩
    | entries es =>
      rw [hsource] at hbase
      exact legible_ofEntries (hkeys es hsource) hbase
  rcases hs with ⟨-, rfl⟩ | ⟨later, hlater, rfl⟩
  · exact hlegible
  · refine hlegible.merge (legible_ofEntries (fun e he => ?_) hlater)
    obtain ⟨d, -, rfl⟩ := List.mem_map.mp he
    exact ⟨d.1, rfl⟩

/-! ## Entry by entry -/

theorem addEntry_id (s : AttributeSet) (id : Option String) :
    s.addEntry (.text "id") (.ofText? id) = .ok { s with id := id } := by
  cases id <;> simp [AttributeSet.addEntry, Term.ofText?, Term.isNone, Term.plain, Term.display]

theorem addEntry_class {value : Term} {classes : List Term} (h : classesOf value = .ok classes) :
    s.addEntry (.text "class") value = .ok { s with classes := classes } := by
  simp [AttributeSet.addEntry, h]

theorem addEntry_style {value : Term} {style : Option Style} (h : styleOf value = .ok style) :
    s.addEntry (.text "style") value = .ok { s with style := style } := by
  simp [AttributeSet.addEntry, h]

/-- An entry whose key has no field of its own is told by whether it registers listeners. -/
theorem addEntry_other {k : String} (hk : k ∉ ownKeys) (s : AttributeSet) (value : Term) :
    s.addEntry (.text k) value = (do
      match ← listenersOf (.text k) value with
      | some fns => return { s with listeners := s.listeners.extend (← eventOf (.text k)) fns }
      | none => return { s with attrs := s.attrs.set (.text k) (← attributeValueOf value) }) := by
  simp only [ownKeys, List.mem_cons, List.not_mem_nil, or_false, not_or] at hk
  obtain ⟨hid, hclass, hstyle⟩ := hk
  rw [AttributeSet.addEntry, Term.text_beq_text, Term.text_beq_text, Term.text_beq_text,
    if_neg (by simpa using hid), if_neg (by simpa using hclass)]
  exact if_neg (by simpa using hstyle)

theorem addEntry_event {event : String} {value : Term} {fns : List Term}
    (hevent : beginsListener (.text (listenerMark ++ event)) = .ok true)
    (hfns : callables value = some fns) (s : AttributeSet) :
    s.addEntry (.text (listenerMark ++ event)) value =
      .ok { s with listeners := s.listeners.extend event fns } := by
  have hother : listenerMark ++ event ∉ ownKeys := fun hmem => mark_append_ne hmem rfl
  have hlisteners : listenersOf (.text (listenerMark ++ event)) value = .ok (some fns) := by
    rw [listenersOf, hevent]
    exact congrArg Except.ok hfns
  rw [addEntry_other hother, hlisteners, ok_bind]
  dsimp only
  rw [eventOf_mark, ok_bind, pure_eq_ok]

/-- The value of a plain attribute registers nothing, and is kept. -/
theorem addEntry_plain {k : String} {b : Bool} (hk : k ∉ ownKeys)
    (hbegins : beginsListener (.text k) = .ok b) (s : AttributeSet) (v : AttributeValue) :
    s.addEntry (.text k) (.atom v.toAtom) = .ok { s with attrs := s.attrs.set (.text k) v } := by
  have hnone : callables (.atom v.toAtom) = none := by cases v <;> rfl
  have hlisteners : listenersOf (.text k) (.atom v.toAtom) = .ok none := by
    rw [listenersOf, hbegins, hnone]
    cases b <;> rfl
  have hkept : attributeValueOf (.atom v.toAtom) = .ok v := by
    cases v <;> simp [AttributeValue.toAtom, attributeValueOf]
  rw [addEntry_other hk, hlisteners, ok_bind]
  dsimp only
  rw [hkept, ok_bind, pure_eq_ok]

/-! ## All entries -/

/-- Takes entries into account one after the other. -/
def addAll (s : AttributeSet) (es : List (Term × Term)) : Except Fault AttributeSet :=
  es.foldlM (fun s e => s.addEntry e.1 e.2) s

@[simp] theorem addAll_nil (s : AttributeSet) : s.addAll [] = .ok s := rfl

theorem addAll_cons (e : Term × Term) (es : List (Term × Term)) :
    s.addAll (e :: es) = s.addEntry e.1 e.2 >>= (·.addAll es) :=
  List.foldlM_cons

theorem addAll_append (es fs : List (Term × Term)) :
    s.addAll (es ++ fs) = s.addAll es >>= (·.addAll fs) :=
  List.foldlM_append

/-- Each new event is registered behind the others. -/
theorem addAll_events {rows : Entries String Term} {listeners : Entries String (List Term)}
    (hrows : List.Forall₂ (fun row l => row.1 = l.1 ∧ callables row.2 = some l.2) rows listeners)
    (hevents : ∀ event ∈ Entries.keys listeners,
      beginsListener (.text (listenerMark ++ event)) = .ok true)
    (hnew : (Entries.keys (s.listeners ++ listeners)).Nodup) :
    s.addAll (rows.map fun row => (.text (listenerMark ++ row.1), row.2)) =
      .ok { s with listeners := s.listeners ++ listeners } := by
  induction hrows generalizing s with
  | nil => simp
  | @cons row l rows listeners hrow _ ih =>
    obtain ⟨hfirst, hrest⟩ := List.forall_mem_cons.mp hevents
    have hextend : s.listeners.extend l.1 l.2 = s.listeners ++ [l] :=
      Entries.alter_of_not_mem (Entries.exact_of_lawful l.1)
        (Entries.not_mem_keys_of_nodup hnew) l.2 _
    rw [List.append_cons] at hnew ⊢
    rw [List.map_cons, addAll_cons, hrow.1, addEntry_event hfirst hrow.2, hextend]
    exact ih hrest hnew

/-- Each new plain attribute is set behind the others. -/
theorem addAll_plain {attrs : Entries String AttributeValue}
    (hattrs : ∀ k ∈ Entries.keys attrs, k ∉ ownKeys ∧ ∃ b, beginsListener (.text k) = .ok b)
    (hnew : (Entries.keys (s.attrs ++ attrs.stored .text fun v => v)).Nodup) :
    s.addAll (attrs.map fun e => (.text e.1, .atom e.2.toAtom)) =
      .ok { s with attrs := s.attrs ++ attrs.stored .text fun v => v } := by
  induction attrs generalizing s with
  | nil => simp [Entries.stored]
  | cons e attrs ih =>
    obtain ⟨⟨hother, b, hbegins⟩, hrest⟩ := List.forall_mem_cons.mp hattrs
    rw [Entries.stored, List.map_cons] at hnew ⊢
    rw [List.map_cons]
    have hset : s.attrs.set (.text e.1) e.2 = s.attrs ++ [(.text e.1, e.2)] :=
      Entries.alter_of_not_mem (Term.exact_text e.1) (Entries.not_mem_keys_of_nodup hnew) e.2 _
    rw [List.append_cons] at hnew ⊢
    rw [addAll_cons, addEntry_plain hother hbegins, hset]
    exact ih hrest hnew

/--
The entries of a mapping that says of attributes what they are, where the classes, the style and the
listeners of each event are these values.
-/
def restated (id : Option String) (classes style : Term) (rows : Entries String Term)
    (attrs : Entries String AttributeValue) : List (Term × Term) :=
  (.text "id", .ofText? id) :: (.text "class", classes) :: (.text "style", style) ::
    (rows.map (fun row => (.text (listenerMark ++ row.1), row.2)) ++
      attrs.map fun e => (.text e.1, .atom e.2.toAtom))

/-- What is restated describes the same attributes in the same order. -/
theorem ofEntries_restated {id : Option String} {classes style : Term} {rows : Entries String Term}
    {names : List Term} {declared : Option Style} {listeners : Entries String (List Term)}
    {attrs : Entries String AttributeValue} (hclasses : classesOf classes = .ok names)
    (hstyle : styleOf style = .ok declared)
    (hrows : List.Forall₂ (fun row l => row.1 = l.1 ∧ callables row.2 = some l.2) rows listeners)
    (hlisteners : (Entries.keys listeners).Nodup)
    (hevents : ∀ event ∈ Entries.keys listeners,
      beginsListener (.text (listenerMark ++ event)) = .ok true)
    (hattrs : (Entries.keys attrs).Nodup)
    (hplain : ∀ k ∈ Entries.keys attrs, k ∉ ownKeys ∧ ∃ b, beginsListener (.text k) = .ok b) :
    ofEntries (restated id classes style rows attrs) =
      .ok ⟨id, names, declared, listeners, attrs.stored .text fun v => v⟩ := by
  have hkeys := Entries.nodup_keys_stored_text hattrs fun v => v
  show empty.addAll (restated id classes style rows attrs) = _
  rw [restated, addAll_cons, addEntry_id, ok_bind, addAll_cons, addEntry_class hclasses, ok_bind,
    addAll_cons, addEntry_style hstyle, ok_bind, addAll_append,
    addAll_events hrows hevents (by simpa [empty] using hlisteners), ok_bind,
    addAll_plain hplain (by simpa [empty] using hkeys)]
  simp [empty]

end AttributeSet

end Markup
