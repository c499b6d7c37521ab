import Markup.Document.Assignment
import Markup.Proofs.Node.Change

/-!
# What can be reached

In the worlds that can be reached (`World.Reachable`), whatever is in a collection field of a node
or is a value of a map is there: nobody can store what was never made (`World.Reachable.sound`).
Objects are made and replaced, and that is all that operations do; making a node, changing a
collection and assigning a field of a node are spelled out.
-/

namespace Markup

namespace World

/-- Whatever is reached from an object is there. -/
def Sound (w : World) : Prop :=
  ∀ (i : Nat) (o : Object Value), w.objects[i]? = some o → o.MadeBetween 0 w.objects.size

/-- A value is an atom or an object that is there. -/
def Has (w : World) (v : Value) : Prop := v.Between 0 w.objects.size

/--
The worlds that can be reached: objects are made or replaced, with nothing in their collection
fields and for the values of a map but what is there.
-/
inductive Reachable : World → Prop
  | initial : Reachable .initial
  /-- Objects are made that are closed in themselves. -/
  | extend {w w' : World} (hw : Reachable w) (h : w.Extends w') : Reachable w'
  /-- An object is made over what is there. -/
  | add {w : World} {o : Object Value} (hw : Reachable w) (h : ∀ v ∈ o.holdings, w.Has v) :
      Reachable (w.add o)
  /-- An object is replaced. -/
  | replace {w : World} {id : Nat} {o : Object Value} (hw : Reachable w)
      (h : ∀ v ∈ o.holdings, w.Has v) : Reachable (w.replace id o)

variable {w w' : World}

theorem sound_initial : Sound .initial := by
  intro i o ho
  have hmem : o ∈ World.initial.objects.toList :=
    Array.mem_toList_iff.mpr (Array.mem_of_getElem? ho)
  have hnil : o.holdings = [] := by
    simp only [initial, List.mem_cons, List.mem_append, List.mem_map, List.not_mem_nil,
      or_false] at hmem
    rcases hmem with rfl | ⟨c, -, rfl⟩ | rfl <;> rfl
  exact Object.madeBetween_of_nil hnil

theorem Extends.sound (hw : w.Sound) (h : w.Extends w') : w'.Sound := by
  intro i o ho
  by_cases hi : i < w.objects.size
  · obtain ⟨p, hp⟩ := exists_of_lt_size hi
    have hsame := (h.kept hp).symm.trans ho
    rw [Option.some.injEq] at hsame
    rw [← hsame]
    exact (hw i p hp).mono (Nat.le_refl 0) h.size_le
  · exact (h.made i o (Nat.le_of_not_lt hi) ho).mono (Nat.zero_le _) (Nat.le_refl _)

theorem Sound.add {o : Object Value} (hw : w.Sound) (h : ∀ v ∈ o.holdings, w.Has v) :
    (w.add o).Sound := by
  intro i p hp
  rw [size_add]
  by_cases hi : i < w.objects.size
  · rw [get_add_old hi] at hp
    exact (hw i p hp).mono (Nat.le_refl 0) (Nat.le_succ _)
  · have hlt := lt_size hp
    rw [size_add] at hlt
    obtain rfl : i = w.objects.size := by omega
    rw [get_add_new, Option.some.injEq] at hp
    subst hp
    exact fun v hv => (h v hv).mono (Nat.le_refl 0) (Nat.le_succ _)

theorem Sound.replace {id : Nat} {o : Object Value} (hw : w.Sound)
    (h : ∀ v ∈ o.holdings, w.Has v) : (w.replace id o).Sound := by
  intro i p hp
  rw [size_replace]
  by_cases hi : i = id
  · subst hi
    have hlt := lt_size hp
    rw [size_replace] at hlt
    rw [get_replace_self hlt, Option.some.injEq] at hp
    subst hp
    exact h
  · rw [get_replace_ne hi] at hp
    exact hw i p hp

theorem Reachable.sound (h : Reachable w) : w.Sound := by
  induction h with
  | initial => exact sound_initial
  | extend _ h ih => exact h.sound ih
  | add _ h ih => exact ih.add h
  | replace _ h ih => exact ih.replace h

theorem Has.mono {v : Value} (h : w.Has v) (hle : w.objects.size ≤ w'.objects.size) : w'.Has v :=
  Value.Between.mono h (Nat.le_refl 0) hle

/-- What is reached from an altered object is there. -/
theorem Reachable.has_altered {stored : Value → Prop} (hw : w.Reachable) {i : Nat}
    {o o' : Object Value} (ho : w.objects[i]? = some o) (h : o.Altered stored o')
    (hstored : ∀ v, stored v → w.Has v) : ∀ v ∈ o'.holdings, w.Has v := by
  intro v hv
  rcases h.holdings hv with hold | hnew
  · exact hw.sound i o ho v hold
  · exact hstored v hnew

end World

/-! ## Operations -/

namespace Operation

open World

variable {α β : Type} {w : World}

/-- Whatever world it can be run in, an operation leaves one that can be reached. -/
def Reaching (x : Operation α) : Prop := ∀ w : World, w.Reachable → ((x.runIn w).2).Reachable

/-- A sequence leaves a world that can be reached if its first part does, and the rest after it. -/
theorem reachable_bind {x : Operation α} {k : α → Operation β} (hx : ((x.runIn w).2).Reachable)
    (hk : ∀ a w', x.runIn w = (.ok a, w') → w'.Reachable → (((k a).runIn w').2).Reachable) :
    (((x >>= k).runIn w).2).Reachable := by
  rw [runIn_bind]
  rcases h : x.runIn w with ⟨r, w'⟩
  rw [h] at hx
  cases r with
  | error f => exact hx
  | ok a => exact hk a w' h hx

theorem reaching_append (target item : Value) : Reaching (append target item) := by
  intro w hw
  rcases cases_append target item w with hmade | ⟨id, o, o', -, ho, -, haltered, hrun⟩
  · exact hw.extend hmade
  · rw [hrun]
    exact hw.replace (hw.has_altered ho haltered fun _ => False.elim)

theorem reachable_setItem (hw : w.Reachable) (target key : Value) {value : Value}
    (hvalue : w.Has value) : (((setItem target key value).runIn w).2).Reachable := by
  rcases cases_setItem target key value w with hsame | ⟨id, o, o', -, ho, haltered, hrun⟩
  · rw [hsame]
    exact hw
  · rw [hrun]
    exact hw.replace (hw.has_altered ho haltered fun _ h => h ▸ hvalue)

theorem reaching_appendUnder (target key item : Value) :
    Reaching (appendUnder target key item) := by
  intro w hw
  rcases cases_appendUnder target key item w with
    hmade | ⟨l, es, -, hl, ⟨e, -, hrun⟩ | hrun⟩
  · exact hw.extend hmade
  · rw [hrun]
    exact reaching_append e.2 item w hw
  · rw [hrun]
    have hlist := extending_makeList [item] w
    refine (hw.extend hlist).replace fun v hv => ?_
    obtain ⟨e, he, rfl⟩ := List.mem_map.mp hv
    rw [List.mem_append, List.mem_singleton] at he
    rcases he with hold | rfl
    · exact Has.mono (hw.sound l _ hl e.2 (List.mem_map_of_mem hold)) hlist.size_le
    · refine Value.between_ref (Nat.zero_le _) ?_
      show _ < (w.add (.list [item])).objects.size
      rw [size_add]
      omega

/-- A change of what is there, with what is there. -/
theorem reachable_change (hw : w.Reachable) (c : Change)
    (hstored : ∀ v, c.stored? = some v → w.Has v) : ((c.run.runIn w).2).Reachable := by
  have hmember : ∀ (v : Value) (name : String), name ∉ madeMembers →
      (((member v name).runIn w).2).Reachable :=
    fun v name hname => hw.extend (extending_member v hname w)
  have hlater : ∀ (v : Value) (name : String) (target : Value) (w' : World), name ∉ madeMembers →
      (member v name).runIn w = (.ok target, w') → w.objects.size ≤ w'.objects.size := by
    intro v name target w' hname hrun
    have h := (extending_member v hname w).size_le
    rwa [hrun] at h
  cases c with
  | append target item => exact reaching_append target item w hw
  | assign target key value => exact reachable_setItem hw target key (hstored value rfl)
  | through node c =>
    cases c with
    | listen event listener =>
      refine reachable_bind (reachable_bind (hmember _ _ (by simp [madeMembers])) ?_) ?_
      · intro target w' hrun hw'
        exact reachable_bind (reaching_appendUnder target event listener w' hw')
          fun _ _ _ hw => hw
      · exact fun _ _ _ hw => hw
    | addClass item =>
      exact reachable_bind (hmember _ _ (by simp [madeMembers])) fun target w' _ hw' =>
        reaching_append target item w' hw'
    | addChild child =>
      exact reachable_bind (hmember _ _ (by simp [madeMembers])) fun target w' _ hw' =>
        reaching_append target child w' hw'
    | setAttr key value =>
      refine reachable_bind (hmember _ _ (by simp [madeMembers])) fun target w' hrun hw' => ?_
      have hle := hlater _ _ _ _ (by simp [madeMembers]) hrun
      exact reachable_setItem hw' target key ((hstored value rfl).mono hle)
    | setStyle key value =>
      refine reachable_bind (hmember _ _ (by simp [madeMembers])) fun target w' hrun hw' => ?_
      have hle := hlater _ _ _ _ (by simp [madeMembers]) hrun
      exact reachable_setItem hw' target key ((hstored value rfl).mono hle)

end Operation

/-! ### Nodes -/

/-- The collections that a node is given. -/
def NodeFields.given (f : NodeFields) : List (Option Value) :=
  [f.classes, f.style, f.listeners, f.attrs, f.children]

namespace World

variable {w : World} {f : NodeFields}

/-- A collection was given, or it is new. -/
theorem cases_orMade (w : World) (given : Option Value) (o : Object Value) :
    given = some (w.orMade given o).1 ∨
      (w.orMade given o).1.Between w.objects.size (w.orMade given o).2.objects.size := by
  rw [orMade.eq_def]
  split
  · exact .inr (Value.between_ref (Nat.le_refl _) (by simp))
  · exact .inr (Value.between_ref (Nat.le_refl _) (by simp))
  · exact .inl rfl

/-- The collections of a new node were given, or they are new. -/
theorem cases_nodeOver {name flag v : Value} (hv : v ∈ (w.nodeOver name flag f).collections) :
    some v ∈ f.given ∨ v.Between w.objects.size (w.withCollections f).objects.size := by
  have h₁ : w.Extends (w.classesFor f).2 := extends_orMade _ rfl
  have h₂ : (w.classesFor f).2.Extends (w.listenersFor f).2 := extends_orMade _ rfl
  have h₃ : (w.listenersFor f).2.Extends (w.attrsFor f).2 := extends_orMade _ rfl
  have h₄ : (w.attrsFor f).2.Extends (w.withCollections f) := extends_orMade _ rfl
  have hcase : ∀ {w₁ w₂ : World} {given : Option Value} {v : Value}, w.Extends w₁ →
      w₂.Extends (w.withCollections f) → given ∈ f.given →
      (given = some v ∨ v.Between w₁.objects.size w₂.objects.size) →
      some v ∈ f.given ∨ v.Between w.objects.size (w.withCollections f).objects.size := by
    intro w₁ w₂ given v hbefore hafter hmem hv
    rcases hv with rfl | hnew
    · exact .inl hmem
    · exact .inr (hnew.mono hbefore.size_le hafter.size_le)
  simp only [Node.collections, nodeOver, List.mem_cons, List.not_mem_nil, or_false] at hv
  rcases hv with rfl | rfl | rfl | rfl | rfl
  · exact hcase (Extends.refl w) (h₂.trans (h₃.trans h₄)) (by simp [NodeFields.given])
      (cases_orMade w f.classes (.list []))
  · cases hs : f.style with
    | none => exact .inr (Value.between_atom _ _ _)
    | some style => exact .inl (by simp [NodeFields.given, hs])
  · exact hcase h₁ (h₃.trans h₄) (by simp [NodeFields.given])
      (cases_orMade (w.classesFor f).2 f.listeners (.map []))
  · exact hcase (h₁.trans h₂) h₄ (by simp [NodeFields.given])
      (cases_orMade (w.listenersFor f).2 f.attrs (.map []))
  · exact hcase (h₁.trans (h₂.trans h₃)) (Extends.refl _) (by simp [NodeFields.given])
      (cases_orMade (w.attrsFor f).2 f.children (.list []))

/-- The collections of a new node are there. -/
theorem has_nodeOver {name flag : Value} (h : ∀ v, some v ∈ f.given → w.Has v) :
    ∀ v ∈ (w.nodeOver name flag f).collections, (w.withCollections f).Has v := by
  intro v hv
  rcases cases_nodeOver hv with hgiven | hnew
  · exact (h v hgiven).mono (extends_withCollections w f).size_le
  · exact hnew.mono (Nat.zero_le _) (Nat.le_refl _)

/-- A field is assigned what is there. -/
theorem Reachable.assign {id : Nat} {n n' : Node Value} {field : String} {v : Value}
    (hw : w.Reachable) (hn : w.objects[id]? = some (.node n)) (h : n.assign? field v = some n')
    (hv : w.Has v) : (w.replace id (.node n')).Reachable := by
  have hold : ∀ u ∈ n.collections, w.Has u := hw.sound id _ hn
  refine hw.replace fun u hu => ?_
  have hmem : u ∈ n.collections ∨ u = v := by
    rw [Node.assign?.eq_def] at h
    split at h <;> cases h <;>
      simp only [Object.holdings, Node.collections, List.mem_cons, List.not_mem_nil,
        or_false] at hu ⊢ <;> tauto
  rcases hmem with hmem | rfl
  · exact hold u hmem
  · exact hv

end World

namespace Operation

/-- A node is made over collections that are there. -/
theorem reachable_makeNode {w : World} (hw : w.Reachable) (name : Value) {f : NodeFields}
    (h : ∀ v, some v ∈ f.given → w.Has v) :
    (((makeNode name f).runIn w).2).Reachable := by
  rcases cases_makeNode name f w with ⟨fault, hrun⟩ | ⟨flag, -, hrun⟩
  · rw [hrun]
    exact hw
  · rw [hrun]
    exact (hw.extend (World.extends_withCollections w f)).add (World.has_nodeOver h)

end Operation

end Markup
