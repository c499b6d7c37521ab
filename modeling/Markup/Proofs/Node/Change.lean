import Markup.Node.Edit
import Markup.Proofs.Construction.Objects

/-!
# Changes in place

What `on`, the appends and the assignments do to the objects of a world: some objects are altered,
each within its kind, and objects may be made (`World.Alters`).  No change alters a node, since the
fields of a node name its collections and the collections are what changes.

`NodeChange` lists what can be changed through a node, `Change` adds the changes of an object by
itself, and `Operation.alters_change` says which objects each of them may alter: the collections of
the node, and the values of its listeners.
-/

namespace Markup

/--
An object after a change: a list or bytes with other items, or a map whose values are its own or
stored in it.
-/
inductive Object.Altered (stored : Value → Prop) : Object Value → Object Value → Prop
  | same (o : Object Value) : Altered stored o o
  | list (items items' : List Value) : Altered stored (.list items) (.list items')
  | buffer (bytes bytes' : List UInt8) : Altered stored (.buffer bytes) (.buffer bytes')
  | map (es es' : List (Value × Value)) (h : ∀ e ∈ es', e.2 ∈ es.map (·.2) ∨ stored e.2) :
      Altered stored (.map es) (.map es')

theorem Object.Altered.mono {stored stored' : Value → Prop} {o o' : Object Value}
    (h : o.Altered stored o') (hstored : ∀ v, stored v → stored' v) : o.Altered stored' o' := by
  cases h with
  | same => exact .same o
  | list items items' => exact .list items items'
  | buffer bytes bytes' => exact .buffer bytes bytes'
  | map es es' h => exact .map es es' fun e he => (h e he).imp_right (hstored e.2)

/-- What is reached from an altered object was reached before or is stored. -/
theorem Object.Altered.holdings {stored : Value → Prop} {o o' : Object Value}
    (h : o.Altered stored o') {v : Value} (hv : v ∈ o'.holdings) : v ∈ o.holdings ∨ stored v := by
  cases h with
  | same => exact .inl hv
  | list => cases hv
  | buffer => cases hv
  | map es es' h =>
    obtain ⟨e, he, rfl⟩ := List.mem_map.mp hv
    exact h e he

theorem Object.Altered.eq_node {stored : Value → Prop} {o : Object Value} {n : Node Value}
    (h : Object.Altered stored (.node n) o) : o = .node n := by
  cases h
  rfl

namespace World

/-- Some objects were altered, and others made. -/
structure Alters (opened : Nat → Prop) (stored : Value → Prop) (w w' : World) : Prop where
  size_le : w.objects.size ≤ w'.objects.size
  kept : ∀ {i : Nat} {o : Object Value}, w.objects[i]? = some o → ¬ opened i →
    w'.objects[i]? = some o
  altered : ∀ {i : Nat} {o : Object Value}, w.objects[i]? = some o →
    ∃ o', w'.objects[i]? = some o' ∧
      o.Altered (fun v => stored v ∨ v.Between w.objects.size w'.objects.size) o'
  made : ∀ (i : Nat) (o : Object Value), w.objects.size ≤ i → w'.objects[i]? = some o →
    o.MadeBetween w.objects.size w'.objects.size

variable {opened opened' : Nat → Prop} {stored stored' : Value → Prop} {w w₁ w' : World}

/-- No change alters a node. -/
theorem Alters.node (h : w.Alters opened stored w') {i : Nat} {n : Node Value}
    (hn : w.objects[i]? = some (.node n)) : w'.objects[i]? = some (.node n) := by
  obtain ⟨o, ho, haltered⟩ := h.altered hn
  rw [haltered.eq_node] at ho
  exact ho

theorem Alters.mono (h : w.Alters opened stored w') (hopened : ∀ i, opened i → opened' i)
    (hstored : ∀ v, stored v → stored' v) : w.Alters opened' stored' w' where
  size_le := h.size_le
  kept ho hclosed := h.kept ho fun hi => hclosed (hopened _ hi)
  altered ho := by
    obtain ⟨o', ho', haltered⟩ := h.altered ho
    exact ⟨o', ho', haltered.mono fun v => Or.imp_left (hstored v)⟩
  made := h.made

theorem Extends.alters (h : w.Extends w') : w.Alters opened stored w' where
  size_le := h.size_le
  kept ho _ := h.kept ho
  altered ho := ⟨_, h.kept ho, .same _⟩
  made := h.made

/-- An object that was there is altered after others were made. -/
theorem Extends.alters_replace {id : Nat} {o o' : Object Value} (h : w.Extends w₁)
    (ho : w.objects[id]? = some o)
    (haltered : o.Altered (fun v => stored v ∨ v.Between w.objects.size w₁.objects.size) o')
    (hopened : opened id) : w.Alters opened stored (w₁.replace id o') where
  size_le := by
    rw [size_replace]
    exact h.size_le
  kept {i p} hp hclosed := by
    have hne : i ≠ id := fun h => hclosed (h ▸ hopened)
    rw [get_replace_ne hne]
    exact h.kept hp
  altered {i p} hp := by
    rw [size_replace]
    by_cases hi : i = id
    · subst hi
      rw [ho, Option.some.injEq] at hp
      subst hp
      exact ⟨o', get_replace_self (lt_size (h.kept ho)), haltered⟩
    · rw [get_replace_ne hi]
      exact ⟨p, h.kept hp, .same p⟩
  made i p hi hp := by
    have hne : i ≠ id := Nat.ne_of_gt (Nat.lt_of_lt_of_le (lt_size ho) hi)
    rw [get_replace_ne hne] at hp
    rw [size_replace]
    exact h.made i p hi hp

theorem alters_replace {id : Nat} {o o' : Object Value} (ho : w.objects[id]? = some o)
    (haltered : o.Altered stored o') (hopened : opened id) :
    w.Alters opened stored (w.replace id o') :=
  (Extends.refl w).alters_replace ho (haltered.mono fun _ => .inl) hopened

/-- A new object may be altered before it is looked at. -/
theorem Extends.replace {id : Nat} {o o' : Object Value} (h : w.Extends w₁)
    (hid : w.objects.size ≤ id) (ho : w₁.objects[id]? = some o)
    (haltered : o.Altered (fun _ => False) o') : w.Extends (w₁.replace id o') where
  size_le := by
    rw [size_replace]
    exact h.size_le
  kept {i p} hp := by
    have hlt := lt_size hp
    have hne : i ≠ id := by omega
    rw [get_replace_ne hne]
    exact h.kept hp
  made i p hi hp := by
    rw [size_replace]
    by_cases heq : i = id
    · rw [heq, get_replace_self (lt_size ho), Option.some.injEq] at hp
      subst hp
      intro v hv
      rcases haltered.holdings hv with hold | hnever
      · exact h.made id o hid ho v hold
      · exact hnever.elim
    · rw [get_replace_ne heq] at hp
      exact h.made i p hi hp

theorem map_snd_readKeys (w : World) (es : List (Value × Value)) :
    (w.readKeys es).map (·.2) = es.map (·.2) := by
  simp [readKeys, Function.comp_def]

end World

namespace Operation

variable {w : World}

/-- What an object is found to be changes nothing. -/
theorem exists_runIn_objectOf (v : Value) (w : World) :
    ∃ found, (objectOf v).runIn w = (.ok found, w) ∧
      ∀ id o, found = some (id, o) → v = .ref id ∧ w.objects[id]? = some o := by
  cases v with
  | atom a => exact ⟨none, rfl, fun _ _ h => nomatch h⟩
  | ref id =>
    refine ⟨w.objects[id]?.map (id, ·), rfl, fun i o h => ?_⟩
    rw [Option.map_eq_some_iff] at h
    obtain ⟨p, hp, heq⟩ := h
    cases heq
    exact ⟨rfl, hp⟩

/-- Appending alters the items of a list or of bytes, or nothing that is there. -/
theorem cases_append (target item : Value) (w : World) :
    w.Extends ((append target item).runIn w).2 ∨
      ∃ id o o', target = .ref id ∧ w.objects[id]? = some o ∧ (∀ es, o ≠ .map es) ∧
        o.Altered (fun _ => False) o' ∧ ((append target item).runIn w).2 = w.replace id o' := by
  obtain ⟨found, hfound, hobject⟩ := exists_runIn_objectOf target w
  rw [append, runIn_bind_ok hfound]
  split
  · next id items =>
    obtain ⟨htarget, ho⟩ := hobject id _ rfl
    exact .inr ⟨id, _, _, htarget, ho, fun _ => by simp, .list items _, rfl⟩
  · next id bytes =>
    obtain ⟨htarget, ho⟩ := hobject id _ rfl
    rw [runIn_bind_ok (runIn_read item w)]
    cases hbyte : (w.read item).toByte with
    | error f => exact .inl (World.Extends.refl w)
    | ok byte => exact .inr ⟨id, _, _, htarget, ho, fun _ => by simp, .buffer bytes _, rfl⟩
  · have hdemand : Extending (demand target "append" [item]) :=
      extending_demand target (by simp [madeMembers]) [item]
    exact .inl (closed_extending.discard hdemand w)

/-- Setting an item alters the items of a list or of bytes or the entries of a map, or nothing. -/
theorem cases_setItem (target key value : Value) (w : World) :
    ((setItem target key value).runIn w).2 = w ∨
      ∃ id o o', target = .ref id ∧ w.objects[id]? = some o ∧ o.Altered (· = value) o' ∧
        ((setItem target key value).runIn w).2 = w.replace id o' := by
  obtain ⟨found, hfound, hobject⟩ := exists_runIn_objectOf target w
  rw [setItem, runIn_bind_ok hfound]
  split
  · next id es =>
    obtain ⟨htarget, ho⟩ := hobject id _ rfl
    cases hkey : (w.read key).asKey with
    | error f =>
      have hread : (readKey key).runIn w = (.error f, w) := by rw [← hkey]; rfl
      refine .inl ?_
      rw [setKey, runIn_bind, hread]
    | ok k =>
      have hread : (readKey key).runIn w = (.ok k, w) := by rw [← hkey]; rfl
      refine .inr ⟨id, _, _, htarget, ho, .map es
        (World.valueKeys ((w.readKeys es).set k value)) fun e he => ?_, ?_⟩
      · obtain ⟨entry, hentry, rfl⟩ := List.mem_map.mp he
        have hvalue := Entries.value_of_mem_set hentry
        rwa [World.map_snd_readKeys] at hvalue
      · rw [setKey, runIn_bind_ok hread]
        rfl
  · next id items =>
    obtain ⟨htarget, ho⟩ := hobject id _ rfl
    rw [runIn_bind_ok (runIn_read key w)]
    cases hset : setPosition items (w.read key) value with
    | error f => exact .inl rfl
    | ok items' => exact .inr ⟨id, _, _, htarget, ho, .list items items', rfl⟩
  · next id bytes =>
    obtain ⟨htarget, ho⟩ := hobject id _ rfl
    rw [runIn_bind_ok (runIn_read key w)]
    by_cases hposition : (w.read key).toInt?.isNone = true
    · rw [if_pos hposition]
      exact .inl rfl
    · rw [if_neg hposition, runIn_bind_ok (runIn_read value w)]
      cases hbyte : (w.read value).toByte with
      | error f => exact .inl rfl
      | ok byte =>
        rw [runIn_bind_ok (runIn_ofExcept (.ok byte) w)]
        cases hset : setPosition bytes (w.read key) byte with
        | error f => exact .inl rfl
        | ok bytes' => exact .inr ⟨id, _, _, htarget, ho, .buffer bytes bytes', rfl⟩
  · exact .inl rfl

/--
Appending under a key appends to what a map holds there, or to a new list; what is no map may only
answer with something new to append to.
-/
theorem cases_appendUnder (target key item : Value) (w : World) :
    w.Extends ((appendUnder target key item).runIn w).2 ∨
      ∃ id es, target = .ref id ∧ w.objects[id]? = some (.map es) ∧
        ((∃ e ∈ es, ((appendUnder target key item).runIn w).2 = ((append e.2 item).runIn w).2) ∨
          ((appendUnder target key item).runIn w).2 =
            (w.add (.list [item])).replace id (.map (es ++ [(key, .ref w.objects.size)]))) := by
  obtain ⟨found, hfound, hobject⟩ := exists_runIn_objectOf target w
  rw [appendUnder, runIn_bind_ok hfound]
  split
  · next id es =>
    obtain ⟨htarget, ho⟩ := hobject id _ rfl
    cases hkey : (w.read key).asKey with
    | error f =>
      have hread : (readKey key).runIn w = (.error f, w) := by rw [← hkey]; rfl
      rw [runIn_bind, hread]
      exact .inl (World.Extends.refl w)
    | ok k =>
      have hread : (readKey key).runIn w = (.ok k, w) := by rw [← hkey]; rfl
      rw [runIn_bind_ok hread, runIn_bind_ok (runIn_world w)]
      refine .inr ⟨id, es, htarget, ho, ?_⟩
      cases hheld : (w.readKeys es).get? k with
      | none => exact .inr rfl
      | some held =>
        obtain ⟨entry, hentry, rfl⟩ := Entries.exists_mem_of_get? hheld
        obtain ⟨e, he, rfl⟩ := List.mem_map.mp hentry
        exact .inl ⟨e, he, rfl⟩
  · refine .inl ?_
    refine extends_bind (extending_makeList [] w) fun empty w₁ _ h₁ => h₁.trans ?_
    have hdemand : Extending (demand target "setdefault" [key, empty]) :=
      extending_demand target (by simp [madeMembers]) _
    refine extends_bind (hdemand w₁) fun held w₂ hheld h₂ => ?_
    have hnew := between_of_demand (by simp [madeMembers]) hheld
    rcases cases_append held item w₂ with hmade | ⟨id, o, o', rfl, ho, hmap, haltered, hrun⟩
    · exact h₂.trans hmade
    · rw [hrun]
      have hid := (hnew id rfl).1
      exact h₂.replace hid ho haltered

end Operation

/-! ## Changes through a node and by themselves -/

/-- What can be changed in place through a node. -/
inductive NodeChange where
  | listen (event listener : Value)
  | addClass (item : Value)
  | addChild (child : Value)
  | setAttr (key value : Value)
  | setStyle (key value : Value)

namespace NodeChange

/-- Makes the change through a node. -/
def run (c : NodeChange) (node : Value) : Operation Unit := do
  match c with
  | .listen event listener => discard <| Operation.on node event listener
  | .addClass item => Operation.append (← Operation.member node "class_list") item
  | .addChild child => Operation.append (← Operation.member node "children") child
  | .setAttr key value => Operation.setItem (← Operation.member node "attrs") key value
  | .setStyle key value => Operation.setItem (← Operation.member node "style") key value

/-- The change of the collections of a node. -/
def runOn (c : NodeChange) (n : Node Value) : Operation Unit :=
  match c with
  | .listen event listener => Operation.appendUnder n.listeners event listener
  | .addClass item => Operation.append n.classes item
  | .addChild child => Operation.append n.children child
  | .setAttr key value => Operation.setItem n.attrs key value
  | .setStyle key value => Operation.setItem n.style key value

/-- The objects that a change may alter: a collection of the node, or what its listeners hold. -/
def Opens (c : NodeChange) (n : Node Value) (w : World) (i : Nat) : Prop :=
  match c with
  | .listen _ _ => n.listeners = .ref i ∨ ∃ l es, n.listeners = .ref l ∧
      w.objects[l]? = some (.map es) ∧ .ref i ∈ es.map (·.2)
  | .addClass _ => n.classes = .ref i
  | .addChild _ => n.children = .ref i
  | .setAttr _ _ => n.attrs = .ref i
  | .setStyle _ _ => n.style = .ref i

/-- The value that a change may store in a map. -/
def stored? : NodeChange → Option Value
  | .setAttr _ value | .setStyle _ value => some value
  | _ => none

end NodeChange

/-- What can be changed in place. -/
inductive Change where
  | through (node : Value) (c : NodeChange)
  | append (target item : Value)
  | assign (target key value : Value)

namespace Change

/-- Makes the change. -/
def run : Change → Operation Unit
  | .through node c => c.run node
  | .append target item => Operation.append target item
  | .assign target key value => Operation.setItem target key value

/-- The objects that a change may alter. -/
def Opens (c : Change) (w : World) (i : Nat) : Prop :=
  match c with
  | .through node c => ∃ id n, node = .ref id ∧ w.objects[id]? = some (.node n) ∧ c.Opens n w i
  | .append target _ => target = .ref i
  | .assign target _ _ => target = .ref i

/-- The value that a change may store in a map. -/
def stored? : Change → Option Value
  | .through _ c => c.stored?
  | .append _ _ => none
  | .assign _ _ value => some value

/-- What is changed as a node is one. -/
def Suits (c : Change) (w : World) : Prop :=
  match c with
  | .through node _ => ∃ id n, node = .ref id ∧ w.objects[id]? = some (.node n)
  | _ => True

end Change

namespace Operation

variable {w : World} {id : Nat} {n : Node Value}

/-- A change through a node is the change of its collections. -/
theorem runIn_nodeChange (h : w.objects[id]? = some (.node n)) (c : NodeChange) :
    (c.run (.ref id)).runIn w = (c.runOn n).runIn w := by
  cases c with
  | listen event listener =>
    have hmember : (member (.ref id) "listeners").runIn w = (.ok n.listeners, w) :=
      runIn_member h rfl rfl
    have hdiscard : ((NodeChange.listen event listener).run (.ref id)).runIn w =
        (on (.ref id) event listener >>= fun _ => pure ()).runIn w := rfl
    rw [hdiscard, runIn_bind, on, runIn_bind_ok hmember, runIn_bind, NodeChange.runOn]
    rcases (appendUnder n.listeners event listener).runIn w with ⟨result, w'⟩
    cases result <;> rfl
  | addClass item => exact runIn_bind_ok (runIn_member h rfl rfl)
  | addChild child => exact runIn_bind_ok (runIn_member h rfl rfl)
  | setAttr key value => exact runIn_bind_ok (runIn_member h rfl rfl)
  | setStyle key value => exact runIn_bind_ok (runIn_member h rfl rfl)

theorem alters_append (target item : Value) (w : World) :
    w.Alters (target = .ref ·) (fun _ => False) ((append target item).runIn w).2 := by
  rcases cases_append target item w with hmade | ⟨id, o, o', rfl, ho, -, haltered, hrun⟩
  · exact hmade.alters
  · rw [hrun]
    exact World.alters_replace ho haltered rfl

theorem alters_setItem (target key value : Value) (w : World) :
    w.Alters (target = .ref ·) (· = value) ((setItem target key value).runIn w).2 := by
  rcases cases_setItem target key value w with hsame | ⟨id, o, o', rfl, ho, haltered, hrun⟩
  · rw [hsame]
    exact (World.Extends.refl w).alters
  · rw [hrun]
    exact World.alters_replace ho haltered rfl

theorem alters_appendUnder (target key item : Value) (w : World) :
    w.Alters (fun i => target = .ref i ∨ ∃ l es, target = .ref l ∧
        w.objects[l]? = some (.map es) ∧ .ref i ∈ es.map (·.2)) (fun _ => False)
      ((appendUnder target key item).runIn w).2 := by
  rcases cases_appendUnder target key item w with
    hmade | ⟨l, es, rfl, hl, ⟨e, he, hrun⟩ | hrun⟩
  · exact hmade.alters
  · rw [hrun]
    refine (alters_append e.2 item w).mono (fun i hi => .inr ⟨l, es, rfl, hl, ?_⟩) fun _ => id
    rw [← hi]
    exact List.mem_map_of_mem he
  · rw [hrun]
    refine (extending_makeList [item] w).alters_replace hl (.map es _ fun e he => ?_) (.inl rfl)
    rw [List.mem_append, List.mem_singleton] at he
    rcases he with hold | rfl
    · exact .inl (List.mem_map_of_mem hold)
    · exact .inr (.inr (between_of_make (runIn_make' (.list [item]) w)))

theorem alters_runOn (c : NodeChange) (n : Node Value) (w : World) :
    w.Alters (c.Opens n w) (c.stored? = some ·) ((c.runOn n).runIn w).2 := by
  cases c with
  | listen event listener =>
    exact (alters_appendUnder n.listeners event listener w).mono (fun _ => id) (fun _ => False.elim)
  | addClass item => exact (alters_append n.classes item w).mono (fun _ => id) (fun _ => False.elim)
  | addChild child =>
    exact (alters_append n.children child w).mono (fun _ => id) (fun _ => False.elim)
  | setAttr key value =>
    exact (alters_setItem n.attrs key value w).mono (fun _ => id) fun _ h => congrArg some h.symm
  | setStyle key value =>
    exact (alters_setItem n.style key value w).mono (fun _ => id) fun _ h => congrArg some h.symm

/-- What a change may alter and store. -/
theorem alters_change (c : Change) (w : World) (h : c.Suits w) :
    w.Alters (c.Opens w) (c.stored? = some ·) (c.run.runIn w).2 := by
  cases c with
  | through node c =>
    obtain ⟨id, n, rfl, hn⟩ := h
    rw [Change.run, runIn_nodeChange hn]
    exact (alters_runOn c n w).mono (fun i hi => ⟨id, n, rfl, hn, hi⟩) fun _ h => h
  | append target item =>
    exact (alters_append target item w).mono (fun _ => id) (fun _ => False.elim)
  | assign target key value =>
    exact (alters_setItem target key value w).mono (fun _ => id) fun _ h => congrArg some h.symm

end Operation

end Markup
