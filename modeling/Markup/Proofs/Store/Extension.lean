import Markup.Calling
import Markup.Proofs.Stateful
import Markup.Proofs.Store

/-!
# What calling a value does to the objects

Whatever is called, and whatever is looked up for it, objects are only made, never changed
(`World.Extends`).  What is made is closed in itself: the collections of a new node and the values
of a new map are new objects too, so that nothing that was there before is reached through them.
Only the members that are made from what an object keeps (`madeMembers`) are not closed in this way.
-/

namespace Markup

/-- The value is an atom, or the number of its object is among these. -/
def Value.Between (lo hi : Nat) (v : Value) : Prop := ∀ id, v = .ref id → lo ≤ id ∧ id < hi

@[simp] theorem Value.between_atom (lo hi : Nat) (a : Atom) : (Value.atom a).Between lo hi := by
  intro id h
  cases h

theorem Value.between_ref {lo hi id : Nat} (hlo : lo ≤ id) (hhi : id < hi) :
    (Value.ref id).Between lo hi := by
  intro i h
  cases h
  exact ⟨hlo, hhi⟩

theorem Value.Between.mono {lo hi lo' hi' : Nat} {v : Value} (h : v.Between lo hi)
    (hlo : lo' ≤ lo) (hhi : hi ≤ hi') : v.Between lo' hi' := by
  intro id hv
  have hid := h id hv
  omega

/-- The fields of a node that can hold what changes in place. -/
def Node.collections (n : Node Value) : List Value :=
  [n.classes, n.style, n.listeners, n.attrs, n.children]

/-- What is reachable from an object through the collections of a node, or as a value of a map. -/
def Object.holdings : Object Value → List Value
  | .node n => n.collections
  | .map es => es.map (·.2)
  | _ => []

/-- Whatever is reached from an object is among the objects between two numbers. -/
def Object.MadeBetween (lo hi : Nat) (o : Object Value) : Prop := ∀ v ∈ o.holdings, v.Between lo hi

theorem Object.MadeBetween.mono {lo hi lo' hi' : Nat} {o : Object Value}
    (h : o.MadeBetween lo hi) (hlo : lo' ≤ lo) (hhi : hi ≤ hi') : o.MadeBetween lo' hi' :=
  fun v hv => (h v hv).mono hlo hhi

/-- Where nothing is reached from an object, it can be made at any time. -/
theorem Object.madeBetween_of_nil {lo hi : Nat} {o : Object Value} (h : o.holdings = []) :
    o.MadeBetween lo hi := by
  intro v hv
  rw [h] at hv
  cases hv

/-- Where the values of a map are there, the map can be made. -/
theorem Object.madeBetween_map {lo hi : Nat} {es : List (Value × Value)}
    (h : ∀ e ∈ es, e.2.Between lo hi) : (Object.map es).MadeBetween lo hi := by
  intro v hv
  obtain ⟨e, he, rfl⟩ := List.mem_map.mp hv
  exact h e he

namespace World

/-- Objects were made, and those that were there are the same. -/
structure Extends (w w' : World) : Prop where
  size_le : w.objects.size ≤ w'.objects.size
  kept : ∀ {i : Nat} {o : Object Value}, w.objects[i]? = some o → w'.objects[i]? = some o
  made : ∀ (i : Nat) (o : Object Value), w.objects.size ≤ i → w'.objects[i]? = some o →
    o.MadeBetween w.objects.size w'.objects.size

variable {w w₁ w' : World} {o : Object Value}

theorem getElem?_of_size_le {i : Nat} (h : w.objects.size ≤ i) : w.objects[i]? = none :=
  Array.getElem?_eq_none h

theorem exists_of_lt_size {i : Nat} (h : i < w.objects.size) : ∃ o, w.objects[i]? = some o :=
  ⟨w.objects[i], Array.getElem?_eq_some_iff.mpr ⟨h, rfl⟩⟩

theorem extends_of_objects_eq (h : w'.objects = w.objects) : w.Extends w' where
  size_le := Nat.le_of_eq (by rw [h])
  kept ho := by rw [h, ho]
  made i o hi ho := by
    rw [h, getElem?_of_size_le hi] at ho
    cases ho

theorem Extends.refl (w : World) : w.Extends w := extends_of_objects_eq rfl

theorem Extends.trans (h₁ : w.Extends w₁) (h₂ : w₁.Extends w') : w.Extends w' where
  size_le := Nat.le_trans h₁.size_le h₂.size_le
  kept ho := h₂.kept (h₁.kept ho)
  made i o hi ho := by
    by_cases hlt : i < w₁.objects.size
    · obtain ⟨p, hp⟩ := exists_of_lt_size hlt
      have hsame : some p = some o := (h₂.kept hp).symm.trans ho
      rw [Option.some.injEq] at hsame
      rw [← hsame]
      exact (h₁.made i p hi hp).mono (Nat.le_refl _) h₂.size_le
    · exact (h₂.made i o (Nat.le_of_not_lt hlt) ho).mono h₁.size_le (Nat.le_refl _)

/-- Objects were made, and of those that were there only some may have been changed. -/
structure ChangesOnly (opened : Nat → Prop) (w w' : World) : Prop where
  size_le : w.objects.size ≤ w'.objects.size
  spared : ∀ {i : Nat} {o : Object Value}, w.objects[i]? = some o → ¬ opened i →
    w'.objects[i]? = some o

variable {opened opened' : Nat → Prop}

theorem ChangesOnly.refl (opened : Nat → Prop) (w : World) : w.ChangesOnly opened w :=
  ⟨Nat.le_refl _, fun ho _ => ho⟩

theorem ChangesOnly.trans (h : w.ChangesOnly opened w₁) (h' : w₁.ChangesOnly opened w') :
    w.ChangesOnly opened w' where
  size_le := Nat.le_trans h.size_le h'.size_le
  spared ho hi := h'.spared (h.spared ho hi) hi

theorem ChangesOnly.mono (h : w.ChangesOnly opened w') (hopened : ∀ i, opened i → opened' i) :
    w.ChangesOnly opened' w' where
  size_le := h.size_le
  spared ho hi := h.spared ho fun hopen => hi (hopened _ hopen)

theorem Extends.changesOnly (h : w.Extends w') : w.ChangesOnly opened w' :=
  ⟨h.size_le, fun ho _ => h.kept ho⟩

theorem changesOnly_add : w.ChangesOnly opened (w.add o) := ⟨by simp, fun ho _ => get_add ho⟩

theorem changesOnly_replace {id : Nat} (h : opened id) : w.ChangesOnly opened (w.replace id o) where
  size_le := Nat.le_of_eq size_replace.symm
  spared {i p} hp hi := by
    have hne : i ≠ id := fun heq => hi (heq ▸ h)
    rw [get_replace_ne hne, hp]

/-- What was made meanwhile may be replaced. -/
theorem ChangesOnly.replace {id : Nat} (h : w.ChangesOnly opened w₁) (hid : w.objects.size ≤ id) :
    w.ChangesOnly opened (w₁.replace id o) where
  size_le := by
    rw [size_replace]
    exact h.size_le
  spared {i p} hp hi := by
    have hlt := lt_size hp
    have hne : i ≠ id := by omega
    rw [get_replace_ne hne]
    exact h.spared hp hi

/-! ## Several objects made one after the other -/

/-- The world with several more objects. -/
def addAll (w : World) (os : List (Object Value)) : World :=
  { w with objects := w.objects ++ os.toArray }

variable {os ps : List (Object Value)}

@[simp] theorem addAll_nil (w : World) : w.addAll [] = w := by simp [addAll]

theorem addAll_cons (w : World) (o : Object Value) (os : List (Object Value)) :
    w.addAll (o :: os) = (w.add o).addAll os := by
  simp [addAll, add]

theorem addAll_append (w : World) (os ps : List (Object Value)) :
    w.addAll (os ++ ps) = (w.addAll os).addAll ps := by
  simp [addAll]

theorem add_eq_addAll (w : World) (o : Object Value) : w.add o = w.addAll [o] := by
  simp [addAll, add]

@[simp] theorem size_addAll : (w.addAll os).objects.size = w.objects.size + os.length := by
  simp [addAll]

theorem get_addAll_old {i : Nat} (h : i < w.objects.size) :
    (w.addAll os).objects[i]? = w.objects[i]? := by
  simp [addAll, Array.getElem?_append, h]

theorem get_addAll_new (j : Nat) : (w.addAll os).objects[w.objects.size + j]? = os[j]? := by
  have hle : ¬ w.objects.size + j < w.objects.size := by omega
  simp [addAll, Array.getElem?_append, hle]

/-- An object that is there after several were made was there or is one of these. -/
theorem get_addAll_of_size_le {i : Nat} (h : w.objects.size ≤ i) :
    (w.addAll os).objects[i]? = os[i - w.objects.size]? := by
  obtain ⟨j, rfl⟩ := Nat.exists_eq_add_of_le h
  rw [get_addAll_new, Nat.add_sub_cancel_left]

theorem extends_addAll (h : ∀ o ∈ os, o.MadeBetween w.objects.size (w.objects.size + os.length)) :
    w.Extends (w.addAll os) where
  size_le := by simp
  kept ho := (get_addAll_old (lt_size ho)).trans ho
  made i o hi ho := by
    rw [get_addAll_of_size_le hi] at ho
    rw [size_addAll]
    exact h o (List.mem_of_getElem? ho)

theorem extends_add (h : o.MadeBetween w.objects.size (w.objects.size + 1)) :
    w.Extends (w.add o) := by
  rw [add_eq_addAll]
  refine extends_addAll fun p hp => ?_
  rw [List.mem_singleton] at hp
  rw [hp]
  exact h

end World

namespace Operation

variable {α β : Type}

/-! ## Operations that only make objects -/

/-- Whatever world it runs in, an operation only makes objects. -/
def Extending (x : Operation α) : Prop := ∀ w : World, w.Extends (x.runIn w).2

theorem closed_extending : Closed fun _ x => Extending x :=
  closed_moves World.Extends.refl fun _ _ _ => World.Extends.trans

theorem extending_hear (name : Value) (args : List Value) : Extending (hear name args) :=
  fun _ => World.extends_of_objects_eq rfl

/-- A sequence only makes objects if its first part does, and the rest after what that part made. -/
theorem extends_bind {x : Operation α} {k : α → Operation β} {w : World}
    (hx : w.Extends (x.runIn w).2)
    (hk : ∀ a w₁, x.runIn w = (.ok a, w₁) → w.Extends w₁ → w.Extends ((k a).runIn w₁).2) :
    w.Extends ((x >>= k).runIn w).2 := by
  rw [runIn_bind]
  rcases h : x.runIn w with ⟨r, w₁⟩
  rw [h] at hx
  cases r with
  | error f => exact hx
  | ok a => exact hk a w₁ h hx

/-- Making an object from which nothing is reached. -/
theorem extending_make {o : Object Value} (h : o.holdings = []) : Extending (make o) := by
  intro w
  rw [runIn_make']
  exact World.extends_add (Object.madeBetween_of_nil h)

theorem extending_makeList (items : List Value) : Extending (makeList items) :=
  extending_make rfl

/-! ## Looking members up -/

/-- The members that are made from what an object keeps. -/
def madeMembers : List String := ["calls", "_constructors"]

section Closure

variable {P : ∀ ⦃α : Type⦄, Operation α → Prop} (hP : Closed P)
  (htuple : ∀ items, P (make (.tuple items)))

include hP htuple

/-- Members are looked up without a change, but for the arguments of an error that are copied. -/
protected theorem Closed.find (v : Value) {name : String} (hname : name ∉ madeMembers) :
    P (find v name) := by
  cases v with
  | atom a => exact hP.ofExcept _
  | ref id =>
    refine hP.bind (hP.get? id) fun found => ?_
    cases found with
    | none => exact hP.failed _
    | some o =>
      have hmade : P (madeMember id o name) := by
        rw [madeMember.eq_def]
        split
        · exact absurd (by simp [madeMembers]) hname
        · exact hP.bind (htuple _) fun _ => hP.done _
        · exact absurd (by simp [madeMembers]) hname
        · exact hP.done _
      refine hP.bind hmade fun part => ?_
      cases part with
      | none => exact hP.ofExcept _
      | some part => exact hP.done _

protected theorem Closed.member (hskill : ∀ name, P (make (.stranger name []))) (v : Value)
    {name : String} (hname : name ∉ madeMembers) : P (member v name) := by
  refine hP.bind (hP.find htuple v hname) fun found => ?_
  cases found with
  | part part => exact hP.done part
  | skill => exact hskill name

end Closure

/-- What is made when a member is looked up keeps nothing open. -/
theorem extending_find (v : Value) {name : String} (hname : name ∉ madeMembers) :
    Extending (find v name) :=
  closed_extending.find (fun _ => extending_make rfl) v hname

theorem extending_member (v : Value) {name : String} (hname : name ∉ madeMembers) :
    Extending (member v name) :=
  closed_extending.member (fun _ => extending_make rfl) (fun _ => extending_make rfl) v hname

end Operation

end Markup
