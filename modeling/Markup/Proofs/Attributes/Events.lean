import Markup.Construction
import Markup.Proofs.Attributes
import Markup.Proofs.Construction.Call

/-!
# The listeners that a call describes

An entry of a mapping registers listeners for an event where its key is the mark of listeners
followed by the event, and its value is something to call or a sequence of nothing else
(`AttributeSet.listed_addEntry`).  So the listeners of an event are those of one entry, and after
them those of the last keyword that stands for the same key (`AttributeSet.listed_of_describe`).
-/

namespace Markup

open Vocabulary (listenerMark keyOfKeyword)

namespace AttributeSet

/-- The listeners that an entry registers. -/
def registered (held : Option Term) : List Term := (held.bind callables).getD []

/-- The listeners of an event that a mapping and keywords register; no event is without a name. -/
def registeredFor (m : Entries String Term) (kw : List (String × Term)) (event : String) :
    List Term :=
  if event = "" then []
  else registered (m.get? (listenerMark ++ event)) ++
    registered (Entries.last? (kw.map fun e => (keyOfKeyword e.1, e.2)) (listenerMark ++ event))

/-! ## Keys of listeners -/

theorem mark_append_ne {name event : String} (hname : name ∈ ownKeys) :
    listenerMark ++ event ≠ name := by
  intro heq
  have hhead := congrArg (fun s : String => s.toList.head?) heq
  simp only [ownKeys, List.mem_cons, List.not_mem_nil, or_false] at hname
  rw [String.toList_append] at hhead
  rcases hname with rfl | rfl | rfl <;> simp [listenerMark] at hhead

theorem mark_append_inj {event event' : String} :
    listenerMark ++ event = listenerMark ++ event' ↔ event = event' := by
  refine ⟨fun heq => ?_, fun heq => heq ▸ rfl⟩
  have hlist := congrArg String.toList heq
  rw [String.toList_append, String.toList_append, List.append_cancel_left_eq] at hlist
  exact String.toList_inj.mp hlist

/-- A text begins like the key of a listener if it is the mark followed by an event. -/
theorem beginsListener_text {k : String} {b : Bool} (h : beginsListener (.text k) = .ok b) :
    b = true ↔ ∃ event, event ≠ "" ∧ k = listenerMark ++ event := by
  obtain ⟨count, hcount, h⟩ := ok_of_bind h
  have hlength : count = k.toList.length := by
    cases hcount
    rfl
  have hmark : listenerMark.toList = ['o', 'n'] := by decide
  have hmarkLength : listenerMark.length = 2 := by decide
  rw [hlength, hmarkLength] at h
  by_cases hshort : k.toList.length ≤ 2
  · rw [if_pos hshort] at h
    cases h
    refine ⟨fun hfalse => (nomatch hfalse), ?_⟩
    rintro ⟨event, hevent, rfl⟩
    rw [String.toList_append, hmark] at hshort
    simp at hshort
    exact absurd hshort hevent
  · rw [if_neg hshort] at h
    cases h
    rw [List.isPrefixOf_iff_prefix, hmark]
    constructor
    · rintro ⟨rest, hrest⟩
      refine ⟨String.ofList rest, ?_, ?_⟩
      · rintro hempty
        have hnil : rest = [] := by
          have hlist := congrArg String.toList hempty
          rwa [String.toList_ofList] at hlist
        rw [← hrest, hnil] at hshort
        simp at hshort
      · rw [← String.toList_inj, String.toList_append, String.toList_ofList, hmark, hrest]
    · rintro ⟨event, -, rfl⟩
      rw [String.toList_append, hmark]
      exact List.prefix_append _ _

theorem eventOf_mark (event : String) : eventOf (.text (listenerMark ++ event)) = .ok event := by
  have hmark : listenerMark.toList = ['o', 'n'] := by decide
  have hmarkLength : listenerMark.length = 2 := by decide
  rw [eventOf, String.toList_append, hmark, hmarkLength]
  show Except.ok (String.ofList event.toList) = _
  rw [String.ofList_toList]

/-! ## Entries -/

variable {s t : AttributeSet}

/-- What one more entry does to the listeners: those that it registers go to the end of an event. -/
theorem listeners_addEntry {k : String} {value : Term} (h : s.addEntry (.text k) value = .ok t) :
    (t.listeners = s.listeners ∧
      ∀ event, event ≠ "" → k = listenerMark ++ event → callables value = none) ∨
      ∃ event fns, event ≠ "" ∧ k = listenerMark ++ event ∧ callables value = some fns ∧
        t.listeners = s.listeners.extend event fns := by
  rcases cases_addEntry h with ⟨name, hname, hk, hset⟩ |
    ⟨-, ⟨event, fns, hlisteners, hevent, rfl⟩ | ⟨kept, hlisteners, rfl⟩⟩
  · refine .inl ⟨?_, fun event _ heq => ?_⟩
    · rcases hset with ⟨-, _, rfl⟩ | ⟨-, _, rfl⟩ | ⟨-, _, -, rfl⟩ <;> rfl
    · rw [Term.text_beq_text] at hk
      exact absurd (heq.symm.trans (eq_of_beq hk)) (mark_append_ne hname)
  · obtain ⟨begins, hbegins, hchosen⟩ := ok_of_bind hlisteners
    cases begins with
    | false => cases hchosen
    | true =>
      obtain ⟨event', hne, rfl⟩ := (beginsListener_text hbegins).mp rfl
      rw [eventOf_mark] at hevent
      cases hevent
      exact .inr ⟨_, fns, hne, rfl, Except.ok.inj hchosen, rfl⟩
  · refine .inl ⟨rfl, fun event hevent hk => ?_⟩
    obtain ⟨begins, hbegins, hchosen⟩ := ok_of_bind hlisteners
    have hmark := (beginsListener_text hbegins).mpr ⟨event, hevent, hk⟩
    rw [hmark] at hchosen
    exact Except.ok.inj hchosen

/-- The listeners of an event after one more entry. -/
theorem listed_addEntry {k : String} {value : Term} (h : s.addEntry (.text k) value = .ok t)
    {event : String} (hevent : event ≠ "") :
    t.listeners.listed event = s.listeners.listed event ++
      if k = listenerMark ++ event then registered (some value) else [] := by
  rcases listeners_addEntry h with ⟨hsame, hnone⟩ | ⟨event', fns, -, rfl, hfns, hextend⟩
  · rw [hsame]
    by_cases hk : k = listenerMark ++ event
    · have hcallables := hnone event hevent hk
      rw [if_pos hk, registered, Option.bind_some, hcallables]
      exact (List.append_nil _).symm
    · rw [if_neg hk, List.append_nil]
  · rw [hextend, Entries.listed_extend, registered, Option.bind_some, hfns]
    by_cases heq : event' = event
    · rw [if_pos (beq_iff_eq.mpr heq), if_pos (mark_append_inj.mpr heq)]
      rfl
    · rw [if_neg fun h => heq (eq_of_beq h), if_neg fun h => heq (mark_append_inj.mp h)]

/-- Each event has its listeners in one place, and has a name. -/
structure ListsEvents (s : AttributeSet) : Prop where
  distinct : (Entries.keys s.listeners).Nodup
  named : s.listeners.listed "" = []

theorem listsEvents_empty : empty.ListsEvents := ⟨List.nodup_nil, rfl⟩

theorem ListsEvents.addEntry {k : String} {value : Term} (hs : s.ListsEvents)
    (h : s.addEntry (.text k) value = .ok t) : t.ListsEvents := by
  rcases listeners_addEntry h with ⟨hsame, -⟩ | ⟨event, fns, hevent, -, -, hextend⟩
  · exact ⟨hsame ▸ hs.distinct, hsame ▸ hs.named⟩
  · refine ⟨?_, ?_⟩
    · rw [hextend]
      exact Entries.nodup_keys_alter hs.distinct
    · rw [hextend, Entries.listed_extend, hs.named, if_neg fun h => hevent (eq_of_beq h)]
      rfl

/-- The listeners that the entries of a mapping register, after those that there were. -/
theorem listed_of_foldlM {m : Entries String Term} (hs : s.ListsEvents)
    (hm : (Entries.keys m).Nodup)
    (h : (m.stored Term.text fun t => t).foldlM (fun s e => s.addEntry e.1 e.2) s = .ok t) :
    t.ListsEvents ∧ ∀ event, event ≠ "" → t.listeners.listed event =
      s.listeners.listed event ++ registered (m.get? (listenerMark ++ event)) := by
  induction m generalizing s with
  | nil =>
    cases h
    exact ⟨hs, fun event _ => (List.append_nil _).symm⟩
  | cons e m ih =>
    obtain ⟨hnew, hrest⟩ := List.nodup_cons.mp hm
    obtain ⟨s₁, hfirst, h⟩ := ok_of_bind h
    obtain ⟨ht, hlater⟩ := ih (hs.addEntry hfirst) hrest h
    refine ⟨ht, fun event hevent => ?_⟩
    rw [hlater event hevent, listed_addEntry hfirst hevent, Entries.get?_cons]
    by_cases hk : e.1 = listenerMark ++ event
    · have hnone : Entries.get? m (listenerMark ++ event) = none :=
        Entries.get?_of_not_mem (hk ▸ hnew)
      rw [if_pos hk, if_pos (beq_iff_eq.mpr hk), hnone]
      simp [registered]
    · rw [if_neg hk, if_neg fun h => hk (eq_of_beq h), List.append_nil]

theorem listed_of_ofEntries {m : Entries String Term} (hm : (Entries.keys m).Nodup)
    (h : ofEntries (m.stored Term.text fun t => t) = .ok s) :
    s.ListsEvents ∧ ∀ event, event ≠ "" →
      s.listeners.listed event = registered (m.get? (listenerMark ++ event)) :=
  listed_of_foldlM listsEvents_empty hm h

/-- The listeners that keywords register, of which the last with the same key counts. -/
theorem listed_of_ofKeywords {kw : List (String × Term)} (h : ofKeywords kw = .ok s) :
    s.ListsEvents ∧ ∀ event, event ≠ "" → s.listeners.listed event = registered
      (Entries.last? (kw.map fun e => (keyOfKeyword e.1, e.2)) (listenerMark ++ event)) := by
  simp only [← Entries.get?_ofList]
  exact listed_of_ofEntries (Entries.nodup_keys_ofList _) h

theorem ListsEvents.merge (hs : s.ListsEvents) (ht : t.ListsEvents) : (s.merge t).ListsEvents where
  distinct := Entries.nodup_keys_extendAll hs.distinct _
  named := by
    rw [AttributeSet.merge, Entries.listed_extendAll ht.distinct, hs.named, ht.named]
    rfl

/-- The listeners of the node that a call describes. -/
theorem listed_of_describe {one two three : Term} {kw : List (String × Term)} {content : String}
    {children : List Term} {roles : Roles} {m : Entries String Term}
    (hroles : Roles.resolve one two three = .ok roles)
    (hm : roles.attributes = .entries (m.stored Term.text fun t => t))
    (hkeys : (Entries.keys m).Nodup) (h : describe one two three kw = .ok (s, content, children)) :
    s.ListsEvents ∧ ∀ event, s.listeners.listed event = registeredFor m kw event := by
  obtain ⟨_, base, hroles', hbase, -, hs⟩ := of_describe h
  obtain rfl := Except.ok.inj (hroles.symm.trans hroles')
  rw [hm] at hbase
  obtain ⟨hevents, hlisted⟩ := listed_of_ofEntries hkeys hbase
  simp only [registeredFor]
  rcases hs with ⟨rfl, rfl⟩ | ⟨later, hlater, rfl⟩
  · refine ⟨hevents, fun event => ?_⟩
    by_cases hevent : event = ""
    · rw [if_pos hevent, hevent, hevents.named]
    · rw [if_neg hevent, hlisted event hevent]
      exact (List.append_nil _).symm
  · obtain ⟨hevents', hlisted'⟩ := listed_of_ofKeywords hlater
    refine ⟨hevents.merge hevents', fun event => ?_⟩
    by_cases hevent : event = ""
    · rw [if_pos hevent, hevent, (hevents.merge hevents').named]
    · rw [if_neg hevent, AttributeSet.merge, Entries.listed_extendAll hevents'.distinct,
        hlisted event hevent, hlisted' event hevent]

end AttributeSet

end Markup
