import Markup.Proofs.Attributes.Events
import Markup.Proofs.Construction.Fresh
import Markup.Proofs.Document.Listeners

/-!
# The listeners that a call gives

Which listeners a constructor registers can be told from the store alone, without unfolding
anything: those of an entry of the mapping that the call has for attributes, and those of the last
keyword for the same key (`World.calleesFor`).  Objects that are made meanwhile make no difference
to it (`World.Extends.calleesFor_eq`), and the new node keeps these listeners and no others
(`AttributeSet.keepsListeners_made`, `World.values_listed`).
-/

namespace Markup

open Operation
open Vocabulary (listenerMark keyOfKeyword)

namespace World

/-- Whether a value can be called. -/
def callable (w : World) : Value → Bool
  | .atom (.errorClass _) => true
  | .atom _ => false
  | .ref id =>
    match w.objects[id]? with
    | some (.listener ..) | some (.constructor _) => true
    | _ => false

/--
The listeners that a value stands for: itself if it can be called, or its items if it is a sequence
of such.
-/
def calleesOf (w : World) (v : Value) : List Value :=
  if w.callable v then [v]
  else match w.sequence? v with
    | some items => if items.all w.callable then items else []
    | none => []

/-- The entries of a map. -/
def entries? (w : World) : Value → Option (List (Value × Value))
  | .atom _ => none
  | .ref id =>
    match w.objects[id]? with
    | some (.map es) => some es
    | _ => none

/--
The entries of the mapping that a call gives for attributes: of its second argument, or else of its
first; there are none if neither is one, and no mapping if the first is a text.
-/
def mappingGiven (w : World) (a : Arguments) : Option (List (Value × Value)) :=
  (w.entries? a.two).or <|
    match a.one with
    | .text _ => none
    | one => some ((w.entries? one).getD [])

/-- The listeners of an event that a call gives; no event is without a name. -/
def calleesFor (w : World) (m : Entries String Value) (kw : List (String × Value))
    (event : String) : List Value :=
  if event = "" then []
  else ((m.get? (listenerMark ++ event)).elim [] w.calleesOf) ++
    (Entries.last? (kw.map fun e => (keyOfKeyword e.1, e.2)) (listenerMark ++ event)).elim []
      w.calleesOf

/-- A value is there, and so are the items of a sequence. -/
def HasAll (w : World) (v : Value) : Prop :=
  w.Has v ∧ ∀ items, w.sequence? v = some items → ∀ u ∈ items, w.Has u

variable {w w' : World} {v : Value} {a : Arguments} {m : Entries String Value}
  {kw : List (String × Value)}

theorem hasAll_none : w.HasAll .none :=
  ⟨Value.between_atom _ _ _, fun items hitems => by cases hitems⟩

/-! ## While objects are made -/

theorem Extends.callable_eq (h : w.Extends w') (hv : w.Has v) : w'.callable v = w.callable v := by
  cases v with
  | atom a => cases a <;> rfl
  | ref id =>
    obtain ⟨o, ho⟩ := exists_of_lt_size (hv id rfl).2
    rw [callable, callable, ho, h.kept ho]

theorem Retains.callable (h : w.Retains 0 w') (hv : w.callable v = true) :
    w'.callable v = true := by
  cases v with
  | atom a =>
    cases a <;> first | rfl | cases hv
  | ref i =>
    rw [World.callable] at hv ⊢
    cases ho : w.objects[i]? with
    | none =>
      rw [ho] at hv
      cases hv
    | some o =>
      rw [ho] at hv
      rw [h.kept (Nat.zero_le i) ho]
      exact hv

theorem Extends.calleesOf_eq (h : w.Extends w') (hv : w.HasAll v) :
    w'.calleesOf v = w.calleesOf v := by
  rw [calleesOf, calleesOf, h.callable_eq hv.1, h.sequence?_eq hv.1]
  cases hitems : w.sequence? v with
  | none => rfl
  | some items =>
    have hall : items.all w'.callable = items.all w.callable := by
      rw [Bool.eq_iff_iff, List.all_eq_true, List.all_eq_true]
      refine forall₂_congr fun u hu => ?_
      rw [h.callable_eq (hv.2 items hitems u hu)]
    simp only [hall]

theorem HasAll.extend (hv : w.HasAll v) (h : w.Extends w') : w'.HasAll v := by
  refine ⟨hv.1.mono h.size_le, fun items hitems u hu => (hv.2 items ?_ u hu).mono h.size_le⟩
  rwa [h.sequence?_eq hv.1] at hitems

/-- The items that a call gives for children are there. -/
theorem has_of_mem_childrenGiven
    (given : w.HasAll a.one ∧ w.HasAll a.two ∧ w.HasAll a.three) (hv : v ∈ w.childrenGiven a) :
    w.Has v := by
  obtain ⟨hone, htwo, hthree⟩ := given
  rw [childrenGiven] at hv
  cases h₃ : w.sequence? a.three with
  | some items =>
    rw [h₃] at hv
    exact hthree.2 items h₃ v hv
  | none =>
    cases h₂ : w.sequence? a.two with
    | some items =>
      rw [h₃, h₂] at hv
      exact htwo.2 items h₂ v hv
    | none =>
      cases h₁ : w.sequence? a.one with
      | some items =>
        rw [h₃, h₂, h₁] at hv
        exact hone.2 items h₁ v hv
      | none =>
        rw [h₃, h₂, h₁] at hv
        cases hv

theorem Extends.entries?_eq (h : w.Extends w') (hv : w.Has v) : w'.entries? v = w.entries? v := by
  cases v with
  | atom a => rfl
  | ref id =>
    obtain ⟨o, ho⟩ := exists_of_lt_size (hv id rfl).2
    rw [entries?, entries?, ho, h.kept ho]

theorem Extends.mappingGiven_eq (h : w.Extends w') (hone : w.Has a.one) (htwo : w.Has a.two) :
    w'.mappingGiven a = w.mappingGiven a := by
  rw [mappingGiven, mappingGiven, h.entries?_eq htwo]
  split
  · rfl
  · rw [h.entries?_eq hone]

theorem elim_calleesOf_eq (h : w.Extends w') {held : Option Value}
    (hheld : ∀ v, held = some v → w.HasAll v) :
    held.elim [] w'.calleesOf = held.elim [] w.calleesOf := by
  cases held with
  | none => rfl
  | some v => exact h.calleesOf_eq (hheld v rfl)

/-- What a call gives stays the same while objects are made. -/
theorem Extends.calleesFor_eq (h : w.Extends w') (hm : ∀ e ∈ m, w.HasAll e.2)
    (hkw : ∀ e ∈ kw, w.HasAll e.2) (event : String) :
    w'.calleesFor m kw event = w.calleesFor m kw event := by
  rw [calleesFor, calleesFor]
  congr 2
  · refine elim_calleesOf_eq h fun v hv => ?_
    obtain ⟨e, he, rfl⟩ := Entries.exists_mem_of_get? hv
    exact hm e he
  · refine elim_calleesOf_eq h fun v hv => ?_
    obtain ⟨e, he, rfl⟩ := Entries.exists_mem_of_get? hv
    rw [List.mem_reverse, List.mem_map] at he
    obtain ⟨e, he, rfl⟩ := he
    exact hkw e he

/-! ## What is unfolded -/

/-- What can be called is told from the term, if that is unfolded at all. -/
theorem callable_unfold {v : Value} {depth : Nat}
    (h : ∀ id, v = .ref id → w.callable v = true → 0 < depth) :
    (w.unfold true depth v).callable = w.callable v := by
  cases v with
  | atom a =>
    rw [unfold_atom]
    cases a <;> rfl
  | ref id =>
    cases depth with
    | zero =>
      have hnot : ¬ w.callable (.ref id) = true := fun hcallable =>
        absurd (h id rfl hcallable) (Nat.lt_irrefl 0)
      rw [Bool.eq_false_iff.mpr hnot]
      rfl
    | succ depth =>
      rw [unfold, unfoldWith, callable]
      cases w.objects[id]? with
      | none => rfl
      | some o => cases o <;> rfl

/-- The items of a sequence that are all to be called, told from the terms or from the values. -/
theorem values_ite_callable {items : List Value} {depth : Nat}
    (h : ∀ u ∈ items, ∀ id, u = .ref id → w.callable u = true → 0 < depth) :
    values (Option.getD (if !(items.map (w.unfold true depth)).isEmpty &&
      (items.map (w.unfold true depth)).all Term.callable then
        some (items.map (w.unfold true depth)) else none) []) =
      if items.all w.callable then items else [] := by
  have hall : (items.map (w.unfold true depth)).all Term.callable = items.all w.callable := by
    rw [List.all_map, Bool.eq_iff_iff, List.all_eq_true, List.all_eq_true]
    refine forall₂_congr fun u hu => ?_
    rw [Function.comp_apply, callable_unfold (h u hu)]
  rw [hall, List.isEmpty_map]
  cases items with
  | nil => rfl
  | cons u items =>
    by_cases h : (u :: items).all w.callable = true
    · simp [h, values, Function.comp_def]
    · simp only [h]
      rfl

theorem lt_size_of_callable {id : Nat} (h : w.callable (.ref id) = true) :
    id < w.objects.size := by
  rw [callable] at h
  cases ho : w.objects[id]? with
  | none =>
    rw [ho] at h
    cases h
  | some o => exact lt_size ho

/-- A value that is part of another one gives the same listeners unfolded. -/
theorem values_registered (w : World) (v : Value) :
    values (AttributeSet.registered (some (w.readPart v))) = w.calleesOf v := by
  have hthere : ∀ {u : Value} {id : Nat}, u = .ref id → w.callable u = true →
      id < w.objects.size := fun hu hcallable => lt_size_of_callable (hu ▸ hcallable)
  rw [AttributeSet.registered, Option.bind_some, AttributeSet.callables.eq_def, readPart,
    callable_unfold fun id hv hcallable => Nat.zero_lt_of_lt (hthere hv hcallable), calleesOf]
  by_cases hcallable : w.callable v = true
  · rw [if_pos hcallable, if_pos hcallable]
    simp [values]
  rw [if_neg hcallable, if_neg hcallable]
  cases v with
  | atom a =>
    -- of the atoms only a progression has items, and no number can be called
    rw [unfold_atom]
    cases a with
    | range p =>
      rw [sequence?]
      cases p.toList with
      | nil => rfl
      | cons i is => rfl
    | _ => rfl
  | ref id =>
    cases ho : w.objects[id]? with
    | none =>
      rw [sequence?, ho]
      cases w.objects.size with
      | zero => rfl
      | succ n =>
        rw [unfold, unfoldWith, ho]
        rfl
    | some o =>
      have hsize := lt_size ho
      obtain ⟨n, hn⟩ := Nat.exists_eq_add_of_le' (Nat.zero_lt_of_lt hsize)
      -- an item that can be called is another object, so there are two at least
      have hitems : ∀ items : List Value, ∀ u ∈ items, ∀ j, u = .ref j → w.callable u = true →
          0 < n := by
        intro _ u _ j hu hj
        have hne : j ≠ id := fun heq => hcallable (heq ▸ hu ▸ hj)
        have hlt := hthere hu hj
        omega
      rw [hn, unfold, unfoldWith, ho]
      cases o with
      | list items =>
        rw [sequence?, ho]
        exact values_ite_callable (hitems items)
      | tuple items =>
        rw [sequence?, ho]
        exact values_ite_callable (hitems items)
      | _ =>
        rw [sequence?, ho]
        rfl

/-! ## What is described -/

variable {es : List (Value × Value)}

/-- An argument gives attributes as a term as it does as a value. -/
theorem secondAttributes?_read (w : World) (v : Value) : Roles.secondAttributes? (w.read v) =
    (w.entries? v).map fun es => .entries
      (es.map (Prod.map (w.unfold true w.objects.size) (w.unfold true w.objects.size))) := by
  cases v with
  | atom a => rfl
  | ref id =>
    rw [entries?]
    cases ho : w.objects[id]? with
    | none =>
      rw [read, depthBound, unfold, unfoldWith, ho]
      rfl
    | some o =>
      rw [read_ref ho]
      cases o <;> rfl

theorem firstAttributes?_read (h : ∀ s, v ≠ .text s) :
    Roles.firstAttributes? (w.read v) = Roles.secondAttributes? (w.read v) := by
  cases v with
  | atom a =>
    cases a with
    | text s => exact absurd rfl (h s)
    | _ => rfl
  | ref id =>
    cases ho : w.objects[id]? with
    | none =>
      rw [read, depthBound, unfold, unfoldWith, ho]
      rfl
    | some o =>
      rw [read_ref ho]
      cases o <;> rfl

/-- A mapping comes from the second argument or from the first, or is empty. -/
theorem cases_mappingGiven (h : w.mappingGiven a = some es) : w.entries? a.two = some es ∨
    w.entries? a.two = none ∧ (∀ s, a.one ≠ .text s) ∧ (w.entries? a.one).getD [] = es := by
  rw [mappingGiven] at h
  cases htwo : w.entries? a.two with
  | some es' =>
    rw [htwo] at h
    exact .inl h
  | none =>
    rw [htwo, Option.none_or] at h
    split at h
    · cases h
    · next hnot => exact .inr ⟨rfl, hnot, Option.some.inj h⟩

/-- Where a call gives a mapping, its attributes are the entries of the mapping. -/
theorem attributes_of_mappingGiven {roles : Roles}
    (hroles : Roles.resolve (w.read a.one) (w.read a.two) (w.read a.three) = .ok roles)
    (hm : w.mappingGiven a = some es) : roles.attributes = .entries
      (es.map (Prod.map (w.unfold true w.objects.size) (w.unfold true w.objects.size))) := by
  rw [(Roles.of_resolve hroles).1, secondAttributes?_read]
  rcases cases_mappingGiven hm with htwo | ⟨htwo, hnot, hone⟩
  · rw [htwo]
    rfl
  · rw [htwo, firstAttributes?_read hnot, secondAttributes?_read]
    cases hes : w.entries? a.one with
    | some es' =>
      rw [hes] at hone
      cases hone
      rfl
    | none =>
      rw [hes] at hone
      cases hone
      rfl

/-- A call that gives no mapping gives a selector. -/
theorem exists_selector_of_mappingGiven {roles : Roles}
    (hroles : Roles.resolve (w.read a.one) (w.read a.two) (w.read a.three) = .ok roles)
    (hm : w.mappingGiven a = none) : ∃ s, roles.attributes = .selector s := by
  rw [mappingGiven] at hm
  obtain ⟨htwo, hone⟩ := Option.or_eq_none_iff.mp hm
  split at hone
  · next s heq =>
    refine ⟨s, ?_⟩
    rw [(Roles.of_resolve hroles).1, secondAttributes?_read, htwo, heq, read, unfold_atom]
    rfl
  · cases hone

theorem values_registered_map (w : World) (held : Option Value) :
    values (AttributeSet.registered (held.map w.readPart)) = held.elim [] w.calleesOf := by
  cases held with
  | none => rfl
  | some v => exact values_registered w v

/-- The listeners that a call describes are those that it gives. -/
theorem values_listed {s : AttributeSet} {content : String} {children : List Term}
    (hm : w.mappingGiven a = some (m.stored .text fun v => v)) (hkeys : (Entries.keys m).Nodup)
    (h : describe (w.read a.one) (w.read a.two) (w.read a.three)
      (a.kw.map fun e => (e.1, w.readPart e.2)) = .ok (s, content, children)) :
    s.ListsEvents ∧ ∀ event, values (s.listeners.listed event) = w.calleesFor m a.kw event := by
  obtain ⟨roles, -, hroles, -⟩ := of_describe h
  have hattributes := attributes_of_mappingGiven hroles hm
  let m' : Entries String Term := m.map fun e => (e.1, w.readPart e.2)
  have hm' : roles.attributes = .entries (m'.stored Term.text fun t => t) := by
    rw [hattributes]
    simp [m', Entries.stored, readPart]
  have hkeys' : (Entries.keys m').Nodup := by
    simpa [m', Entries.keys, Function.comp_def] using hkeys
  obtain ⟨hevents, hlisted⟩ := AttributeSet.listed_of_describe hroles hm' hkeys' h
  refine ⟨hevents, fun event => ?_⟩
  rw [hlisted, AttributeSet.registeredFor, calleesFor]
  by_cases hevent : event = ""
  · rw [if_pos hevent, if_pos hevent]
    rfl
  rw [if_neg hevent, if_neg hevent, values, List.map_append]
  congr 1
  · rw [Entries.get?_map_snd]
    exact values_registered_map w _
  · have hkw : (a.kw.map fun e => (e.1, w.readPart e.2)).map (fun e => (keyOfKeyword e.1, e.2)) =
        (a.kw.map fun e => (keyOfKeyword e.1, e.2)).map fun e => (e.1, w.readPart e.2) := by
      simp
    rw [hkw, Entries.last?_map_snd]
    exact values_registered_map w _

end World

namespace AttributeSet

open World

variable {s : AttributeSet} {w : World} {name flag : Value} {content : String}
  {children : List Term}

/-- Lists that follow each other hold the items of entries. -/
theorem holdsRows_numberedFrom {n : Nat} {es : Entries String (List Term)}
    (h : ∀ j e, es[j]? = some e → w.objects[n + j]? = some (.list (values e.2))) :
    w.HoldsRows (Entries.numberedFrom n es) (es.map fun e => (e.1, values e.2)) := by
  induction es generalizing n with
  | nil => exact .nil
  | cons e es ih =>
    refine .cons ⟨rfl, h 0 e rfl⟩ (ih fun j e' he' => ?_)
    rw [Nat.add_assoc, Nat.add_comm 1 j]
    exact h (j + 1) e' he'

/-- A new node keeps the listeners that were described. -/
theorem keepsListeners_made (hs : s.ListsEvents) :
    (w.addAll (s.made w.objects.size name flag content children)).KeepsListeners
      (s.listenersAt w.objects.size) (s.rows w.objects.size)
      (s.listeners.map fun e => (e.1, values e.2)) where
  map := get_listeners
  held := holdsRows_numberedFrom fun j e he => get_row he
  distinct := by
    rw [rows, Entries.map_snd_numberedFrom]
    exact List.nodup_range'
  events := by simpa [Entries.keys, Function.comp_def] using hs.distinct

theorem listed_map_values (listeners : Entries String (List Term)) (event : String) :
    Entries.listed (listeners.map fun e => (e.1, values e.2)) event =
      values (listeners.listed event) := by
  rw [Entries.listed, Entries.get?_map_snd, Entries.listed]
  cases Entries.get? listeners event <;> rfl

end AttributeSet

end Markup
