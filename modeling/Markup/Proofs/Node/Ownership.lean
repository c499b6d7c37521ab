import Markup.Proofs.Node.Reachable
import Markup.Proofs.Tree.InWorld
import Mathlib.Logic.Relation

/-!
# What belongs to a node

The collections of a node, and the lists that its listeners hold, belong to it (`World.Belongs`).  A
node owns them if nothing else leads there (`World.Owns`).  Then what is done with other nodes and
with other objects leaves them as they are, unless one of them is handed out
(`World.Owns.stepElsewhere`), and what is done through the node leaves everything else as it is
(`World.Owns.stepThrough`).  A node goes on owning what belongs to it all the while.
-/

namespace Markup

namespace World

/-- An object is a collection of a node, or is held by the listeners of the node. -/
def Belongs (w : World) (i k : Nat) : Prop :=
  ∃ n, w.objects[i]? = some (.node n) ∧
    (.ref k ∈ n.collections ∨ ∃ es, w.HasMap n.listeners es ∧ .ref k ∈ es.map (·.2))

/-- A node has collections that are all different, and only the node leads to what belongs to it. -/
structure Owns (w : World) (i : Nat) : Prop where
  sound : w.Sound
  node : ∃ n, w.objects[i]? = some (.node n) ∧ n.collections.Nodup ∧ ∃ es, w.HasMap n.listeners es
  apart : ∀ (j : Nat) (o : Object Value), w.objects[j]? = some o → j ≠ i → ¬ w.Belongs i j →
    ∀ k, .ref k ∈ o.holdings → ¬ w.Belongs i k

/-- A node goes on owning what it owned, and all of that stays as it is. -/
structure KeepsOwn (i : Nat) (w w' : World) : Prop where
  owns : w'.Owns i
  node : w'.objects[i]? = w.objects[i]?
  belongs : ∀ k, w'.Belongs i k ↔ w.Belongs i k
  kept : ∀ k, w.Belongs i k → w'.objects[k]? = w.objects[k]?

/-- A node goes on owning what it owned, or what is new, and all the rest stays as it is. -/
structure KeepsRest (i : Nat) (w w' : World) : Prop where
  owns : w'.Owns i
  node : w'.objects[i]? = w.objects[i]?
  size_le : w.objects.size ≤ w'.objects.size
  belongs : ∀ k, w'.Belongs i k → w.Belongs i k ∨ w.objects.size ≤ k
  kept : ∀ k o, w.objects[k]? = some o → ¬ w.Belongs i k → w'.objects[k]? = some o

variable {w w₁ w' : World} {i : Nat} {opened : Nat → Prop} {stored : Value → Prop}

theorem KeepsOwn.refl (h : w.Owns i) : KeepsOwn i w w := ⟨h, rfl, fun _ => Iff.rfl, fun _ _ => rfl⟩

theorem KeepsOwn.trans (h : KeepsOwn i w w₁) (h' : KeepsOwn i w₁ w') : KeepsOwn i w w' where
  owns := h'.owns
  node := h'.node.trans h.node
  belongs k := (h'.belongs k).trans (h.belongs k)
  kept k hk := (h'.kept k ((h.belongs k).mpr hk)).trans (h.kept k hk)

theorem KeepsRest.refl (h : w.Owns i) : KeepsRest i w w :=
  ⟨h, rfl, Nat.le_refl _, fun _ => .inl, fun _ _ ho _ => ho⟩

theorem KeepsRest.trans (h : KeepsRest i w w₁) (h' : KeepsRest i w₁ w') : KeepsRest i w w' where
  owns := h'.owns
  node := h'.node.trans h.node
  size_le := Nat.le_trans h.size_le h'.size_le
  belongs k hk := by
    rcases h'.belongs k hk with hold | hnew
    · exact h.belongs k hold
    · exact .inr (Nat.le_trans h.size_le hnew)
  kept k o ho hk := by
    refine h'.kept k o (h.kept k o ho hk) fun hk₁ => ?_
    rcases h.belongs k hk₁ with hold | hnew
    · exact hk hold
    · exact absurd (lt_size ho) (Nat.not_lt.mpr hnew)

/-- What belongs to a node is there. -/
theorem Sound.lt_of_belongs (hw : w.Sound) {k : Nat} (h : w.Belongs i k) : k < w.objects.size := by
  obtain ⟨n, hn, hmem | ⟨es, ⟨l, hl, hes⟩, hmem⟩⟩ := h
  · exact (hw i _ hn _ hmem k rfl).2
  · exact (hw l _ hes _ hmem k rfl).2

/-- What is reached after a change is there. -/
theorem Sound.alters (hw : w.Sound) (h : w.Alters opened stored w')
    (hstored : ∀ v, stored v → w.Has v) : w'.Sound := by
  intro j o' ho'
  by_cases hj : j < w.objects.size
  · obtain ⟨o, ho⟩ := exists_of_lt_size hj
    obtain ⟨p, hp, haltered⟩ := h.altered ho
    rw [hp, Option.some.injEq] at ho'
    subst ho'
    intro v hv
    rcases haltered.holdings hv with hold | hstore | hnew
    · exact Has.mono (hw j o ho v hold) h.size_le
    · exact (hstored v hstore).mono h.size_le
    · exact hnew.mono (Nat.zero_le _) (Nat.le_refl _)
  · exact (h.made j o' (Nat.le_of_not_lt hj) ho').mono (Nat.zero_le _) (Nat.le_refl _)

/-- What belongs to a node whose listeners are a map. -/
theorem belongs_iff {n : Node Value} {es : List (Value × Value)} {k : Nat}
    (hn : w.objects[i]? = some (.node n)) (hes : w.HasMap n.listeners es) :
    w.Belongs i k ↔ .ref k ∈ n.collections ∨ .ref k ∈ es.map (·.2) := by
  constructor
  · rintro ⟨m, hm, hmem⟩
    rw [hn, Option.some.injEq, Object.node.injEq] at hm
    subst hm
    refine hmem.imp_right ?_
    rintro ⟨es₁, ⟨l, hl, hes₁⟩, hk⟩
    obtain ⟨l₂, hl₂, hes₂⟩ := hes
    obtain rfl : l = l₂ := Value.ref.inj (hl.symm.trans hl₂)
    rw [hes₁, Option.some.injEq, Object.map.injEq] at hes₂
    rwa [← hes₂]
  · exact fun hmem => ⟨n, hn, hmem.imp_right fun hk => ⟨es, hes, hk⟩⟩

/-- The same objects belong to a node whose listeners are the same. -/
theorem belongs_iff_of_same {n : Node Value} {es : List (Value × Value)}
    (hn : w.objects[i]? = some (.node n)) (hn' : w'.objects[i]? = some (.node n))
    (hes : w.HasMap n.listeners es) (hes' : w'.HasMap n.listeners es) (k : Nat) :
    w'.Belongs i k ↔ w.Belongs i k := by
  rw [belongs_iff hn' hes', belongs_iff hn hes]

/-! ## What is done elsewhere -/

/-- What alters nothing that belongs to a node, and stores nothing of it, leaves it as it is. -/
theorem Owns.alters (h : w.Owns i) (ha : w.Alters opened stored w')
    (hopened : ∀ k, opened k → ¬ w.Belongs i k)
    (hstored : ∀ v, stored v → w.Has v ∧ ∀ k, v = .ref k → ¬ w.Belongs i k) :
    KeepsOwn i w w' := by
  obtain ⟨n, hn, hnodup, es, hes⟩ := h.node
  have hkept : ∀ k, w.Belongs i k → w'.objects[k]? = w.objects[k]? := by
    intro k hk
    obtain ⟨o, ho⟩ := exists_of_lt_size (h.sound.lt_of_belongs hk)
    rw [ho]
    exact ha.kept ho fun hopen => hopened k hopen hk
  have hes' : w'.HasMap n.listeners es := by
    obtain ⟨l, hl, hmap⟩ := hes
    have hbelongs : w.Belongs i l := ⟨n, hn, .inl (by simp [Node.collections, hl])⟩
    exact ⟨l, hl, by rw [hkept l hbelongs, hmap]⟩
  have hsame : ∀ k, w'.Belongs i k ↔ w.Belongs i k :=
    belongs_iff_of_same hn (ha.node hn) hes hes'
  refine ⟨⟨?_, ⟨n, ha.node hn, hnodup, es, hes'⟩, ?_⟩, (ha.node hn).trans hn.symm, hsame, hkept⟩
  · exact h.sound.alters ha fun v hv => (hstored v hv).1
  · intro j o' ho' hj hbelongs k hk
    rw [hsame] at hbelongs ⊢
    have hnew : ∀ hi, (Value.ref k).Between w.objects.size hi → ¬ w.Belongs i k := by
      intro hi hbetween hbelongs
      have hlt := h.sound.lt_of_belongs hbelongs
      have hle := (hbetween k rfl).1
      omega
    by_cases hlt : j < w.objects.size
    · obtain ⟨o, ho⟩ := exists_of_lt_size hlt
      obtain ⟨p, hp, haltered⟩ := ha.altered ho
      rw [hp, Option.some.injEq] at ho'
      subst ho'
      rcases haltered.holdings hk with hold | hstore | hmade
      · exact h.apart j o ho hj hbelongs k hold
      · exact (hstored _ hstore).2 k rfl
      · exact hnew _ hmade
    · exact hnew _ (ha.made j o' (Nat.le_of_not_lt hlt) ho' _ hk)

/-- An object that leads to nothing that belongs to a node leaves it as it is when it is made. -/
theorem Owns.add {o : Object Value} (h : w.Owns i)
    (ho : ∀ v ∈ o.holdings, w.Has v ∧ ∀ k, v = .ref k → ¬ w.Belongs i k) :
    KeepsOwn i w (w.add o) := by
  obtain ⟨n, hn, hnodup, es, hes⟩ := h.node
  have hes' : (w.add o).HasMap n.listeners es := by
    obtain ⟨l, hl, hmap⟩ := hes
    exact ⟨l, hl, get_add hmap⟩
  have hsame := belongs_iff_of_same hn (get_add (o := o) hn) hes hes'
  refine ⟨⟨?_, ⟨n, get_add hn, hnodup, es, hes'⟩, ?_⟩, (get_add hn).trans hn.symm, hsame, ?_⟩
  · exact h.sound.add fun v hv => (ho v hv).1
  · intro j p hp hj hbelongs k hk
    rw [hsame] at hbelongs ⊢
    by_cases hlt : j < w.objects.size
    · rw [get_add_old hlt] at hp
      exact h.apart j p hp hj hbelongs k hk
    · have hle := lt_size hp
      rw [size_add] at hle
      obtain rfl : j = w.objects.size := by omega
      rw [get_add_new, Option.some.injEq] at hp
      subst hp
      exact (ho _ hk).2 k rfl
  · exact fun k hk => get_add_old (h.sound.lt_of_belongs hk)

end World

/-! ## Steps -/

/-- What a change is made on. -/
def Change.target : Change → Value
  | .through node _ => node
  | .append target _ => target
  | .assign target _ _ => target

namespace World

/-- A value does not lead to what belongs to a node. -/
def Apart (w : World) (i : Nat) (v : Value) : Prop := ∀ k, v = .ref k → ¬ w.Belongs i k

/--
What is done elsewhere: another node or another object is changed in place, something is called, or
a node is made; and nothing that belongs to the node is stored.
-/
inductive StepElsewhere (i : Nat) (w : World) : World → Prop
  | change (c : Change) (hsuits : c.Suits w) (hother : c.target ≠ .ref i)
      (htarget : w.Apart i c.target) (hstored : ∀ v, c.stored? = some v → w.Has v ∧ w.Apart i v) :
      StepElsewhere i w (c.run.runIn w).2
  | call (callee : Value) (c : Call Value) :
      StepElsewhere i w ((Operation.callValue callee c).runIn w).2
  | makeNode (name : Value) (f : NodeFields)
      (hgiven : ∀ v, some v ∈ f.given → w.Has v ∧ w.Apart i v) :
      StepElsewhere i w ((Operation.makeNode name f).runIn w).2

/-- What is done through a node: its collections are changed in place. -/
inductive StepThrough (i : Nat) (w : World) : World → Prop
  | change (c : NodeChange) (hstored : ∀ v, c.stored? = some v → w.Has v) :
      StepThrough i w ((c.run (.ref i)).runIn w).2

variable {w w₁ w' : World} {i : Nat}

/-- What a change elsewhere may alter does not belong to the node. -/
theorem Owns.apart_opens (h : w.Owns i) {c : Change} (hother : c.target ≠ .ref i)
    (htarget : w.Apart i c.target) (k : Nat) (hk : c.Opens w k) : ¬ w.Belongs i k := by
  cases c with
  | append target item => exact htarget k hk
  | assign target key value => exact htarget k hk
  | through node c =>
    obtain ⟨j, m, rfl, hm, hopens⟩ := hk
    have hj : j ≠ i := fun heq => hother (congrArg Value.ref heq)
    have hcollection : ∀ {v : Value}, v ∈ m.collections → ∀ k, v = .ref k → ¬ w.Belongs i k :=
      fun hv k hk => h.apart j _ hm hj (htarget j rfl) k (hk ▸ hv)
    cases c with
    | listen event listener =>
      rcases hopens with hmap | ⟨l, es, hl, hes, hheld⟩
      · exact hcollection (by simp [Node.collections]) k hmap
      · -- what another node listens with, and what that holds, is apart
        have hlapart := hcollection (by simp [Node.collections]) l hl
        obtain ⟨n, hn, -⟩ := h.node
        have hli : l ≠ i := by
          rintro rfl
          rw [hn] at hes
          cases hes
        exact h.apart l _ hes hli hlapart k hheld
    | addClass item => exact hcollection (by simp [Node.collections]) k hopens
    | addChild child => exact hcollection (by simp [Node.collections]) k hopens
    | setAttr key value => exact hcollection (by simp [Node.collections]) k hopens
    | setStyle key value => exact hcollection (by simp [Node.collections]) k hopens

/-- What is done elsewhere leaves what belongs to a node as it is. -/
theorem Owns.stepElsewhere (h : w.Owns i) (hstep : StepElsewhere i w w') : KeepsOwn i w w' := by
  cases hstep with
  | change c hsuits hother htarget hstored =>
    exact h.alters (Operation.alters_change c w hsuits) (h.apart_opens hother htarget) hstored
  | call callee c =>
    have hcall : w.Alters (fun _ => False) (fun _ => False) _ :=
      (Operation.extending_callValue callee c w).alters
    exact h.alters hcall (fun _ => False.elim) (fun _ => False.elim)
  | makeNode name f hgiven =>
    have hcollections : w.Alters (fun _ => False) (fun _ => False) (w.withCollections f) :=
      (extends_withCollections w f).alters
    have h₁ := h.alters hcollections (fun _ => False.elim) (fun _ => False.elim)
    rcases Operation.cases_makeNode name f w with ⟨fault, hrun⟩ | ⟨flag, -, hrun⟩
    · rw [hrun]
      exact .refl h
    · rw [hrun]
      refine h₁.trans (h₁.owns.add fun v hv => ⟨?_, fun k hk => ?_⟩)
      · exact has_nodeOver (fun v hv => (hgiven v hv).1) v hv
      · rw [h₁.belongs]
        rcases cases_nodeOver hv with hold | hnew
        · exact (hgiven v hold).2 k hk
        · intro hbelongs
          have hlt := h.sound.lt_of_belongs hbelongs
          have hle := (hnew k hk).1
          omega

/-- What a change through a node may alter belongs to the node. -/
theorem belongs_of_opens {n : Node Value} (hn : w.objects[i]? = some (.node n)) {c : NodeChange}
    {k : Nat} (h : c.Opens n w k) : w.Belongs i k := by
  have hcollection : ∀ {v : Value}, v ∈ n.collections → v = .ref k → w.Belongs i k :=
    fun hv hk => ⟨n, hn, .inl (hk ▸ hv)⟩
  cases c with
  | listen event listener =>
    rcases h with hmap | ⟨l, es, hl, hes, hheld⟩
    · exact hcollection (by simp [Node.collections]) hmap
    · exact ⟨n, hn, .inr ⟨es, ⟨l, hl, hes⟩, hheld⟩⟩
  | addClass item => exact hcollection (by simp [Node.collections]) h
  | addChild child => exact hcollection (by simp [Node.collections]) h
  | setAttr key value => exact hcollection (by simp [Node.collections]) h
  | setStyle key value => exact hcollection (by simp [Node.collections]) h

/-- A map is not altered by appending to it. -/
theorem get_map_append {l : Nat} {es : List (Value × Value)} (hes : w.objects[l]? = some (.map es))
    (target item : Value) :
    ((Operation.append target item).runIn w).2.objects[l]? = some (.map es) := by
  rcases Operation.cases_append target item w with hmade | ⟨id, o, o', -, ho, hmap, -, hrun⟩
  · exact hmade.kept hes
  · have hne : l ≠ id := by
      rintro rfl
      rw [ho, Option.some.injEq] at hes
      exact hmap es hes
    rw [hrun, get_replace_ne hne, hes]

/-- The listeners of a node are the same after a change through it, or have one list more. -/
theorem cases_listeners {n : Node Value} {l : Nat} {es : List (Value × Value)}
    (hnodup : n.collections.Nodup) (hl : n.listeners = .ref l)
    (hes : w.objects[l]? = some (.map es)) (c : NodeChange) :
    ((c.runOn n).runIn w).2.objects[l]? = some (.map es) ∨
      ∃ key item, ((c.runOn n).runIn w).2 =
        (w.add (.list [item])).replace l (.map (es ++ [(key, .ref w.objects.size)])) := by
  have hset : ∀ (target key value : Value), target ≠ n.listeners →
      ((Operation.setItem target key value).runIn w).2.objects[l]? = some (.map es) := by
    intro target key value htarget
    rcases Operation.cases_setItem target key value w with
      hsame | ⟨id, o, o', hid, ho, -, hrun⟩
    · rw [hsame, hes]
    · have hne : l ≠ id := by
        rintro rfl
        exact htarget (hid.trans hl.symm)
      rw [hrun, get_replace_ne hne, hes]
  cases c with
  | listen event listener =>
    rcases Operation.cases_appendUnder n.listeners event listener w with
      hmade | ⟨id, es₁, hid, hes₁, hcases⟩
    · exact .inl (hmade.kept hes)
    · obtain rfl : l = id := Value.ref.inj (hl.symm.trans hid)
      rw [hes, Option.some.injEq, Object.map.injEq] at hes₁
      subst hes₁
      rcases hcases with ⟨e, -, hrun⟩ | hrun
      · refine .inl ?_
        rw [NodeChange.runOn, hrun]
        exact get_map_append hes e.2 listener
      · exact .inr ⟨event, listener, hrun⟩
  | addClass item => exact .inl (get_map_append hes n.classes item)
  | addChild child => exact .inl (get_map_append hes n.children child)
  | setAttr key value =>
    refine .inl (hset n.attrs key value fun heq => ?_)
    simp [Node.collections, heq] at hnodup
  | setStyle key value =>
    refine .inl (hset n.style key value fun heq => ?_)
    simp [Node.collections, heq] at hnodup

/-- What is done through a node leaves everything else as it is, and what belongs to the node
afterwards belonged to it or is new. -/
theorem Owns.stepThrough (h : w.Owns i) (hstep : StepThrough i w w') : KeepsRest i w w' := by
  obtain ⟨n, hn, hnodup, es, l, hl, hes⟩ := h.node
  cases hstep with
  | change c hstored =>
    rw [Operation.runIn_nodeChange hn]
    have ha := Operation.alters_runOn c n w
    have hkept : ∀ k o, w.objects[k]? = some o → ¬ w.Belongs i k →
        ((c.runOn n).runIn w).2.objects[k]? = some o :=
      fun k o ho hk => ha.kept ho fun hopens => hk (belongs_of_opens hn hopens)
    have hsound := h.sound.alters ha fun v hv => hstored v hv
    rcases cases_listeners hnodup hl hes c with hsame | ⟨key, item, hrun⟩
    · have hiff := belongs_iff_of_same hn (ha.node hn) ⟨l, hl, hes⟩ ⟨l, hl, hsame⟩
      refine ⟨⟨hsound, ⟨n, ha.node hn, hnodup, es, l, hl, hsame⟩, ?_⟩,
        (ha.node hn).trans hn.symm, ha.size_le, fun k hk => .inl ((hiff k).mp hk), hkept⟩
      intro j o' ho' hj hbelongs k hk
      rw [hiff] at hbelongs ⊢
      by_cases hlt : j < w.objects.size
      · obtain ⟨o, ho⟩ := exists_of_lt_size hlt
        have heq := (hkept j o ho hbelongs).symm.trans ho'
        rw [Option.some.injEq] at heq
        subst heq
        exact h.apart j o ho hj hbelongs k hk
      · intro hk'
        have hbound := h.sound.lt_of_belongs hk'
        have hnew := (ha.made j o' (Nat.le_of_not_lt hlt) ho' _ hk k rfl).1
        omega
    · -- the only new object is the list that the listeners have more
      have hes' : ((c.runOn n).runIn w).2.objects[l]? =
          some (.map (es ++ [(key, .ref w.objects.size)])) := by
        have hlt : l < (w.add (.list [item])).objects.size := lt_size (get_add hes)
        rw [hrun, get_replace_self hlt]
      have hiff : ∀ k, ((c.runOn n).runIn w).2.Belongs i k ↔
          w.Belongs i k ∨ k = w.objects.size := by
        intro k
        rw [belongs_iff (ha.node hn) ⟨l, hl, hes'⟩, belongs_iff hn ⟨l, hl, hes⟩]
        simp [or_assoc]
      refine ⟨⟨hsound, ⟨n, ha.node hn, hnodup, _, l, hl, hes'⟩, ?_⟩,
        (ha.node hn).trans hn.symm, ha.size_le, fun k hk => ?_, hkept⟩
      · intro j o' ho' hj hbelongs k hk
        rw [hiff, not_or] at hbelongs
        have hlt : j < w.objects.size := by
          have hsize := lt_size ho'
          rw [hrun, size_replace, size_add] at hsize
          omega
        obtain ⟨o, ho⟩ := exists_of_lt_size hlt
        have heq := (hkept j o ho hbelongs.1).symm.trans ho'
        rw [Option.some.injEq] at heq
        subst heq
        have hbound := (h.sound j o ho _ hk k rfl).2
        rw [hiff, not_or]
        exact ⟨h.apart j o ho hj hbelongs.1 k hk, Nat.ne_of_lt hbound⟩
      · exact ((hiff k).mp hk).imp_right fun heq => Nat.le_of_eq heq.symm

/-! ## Runs -/

open Relation (ReflTransGen)

theorem Owns.runElsewhere (h : w.Owns i) (hrun : ReflTransGen (StepElsewhere i) w w') :
    KeepsOwn i w w' := by
  induction hrun with
  | refl => exact .refl h
  | tail _ hstep ih => exact ih.trans (ih.owns.stepElsewhere hstep)

theorem Owns.runThrough (h : w.Owns i) (hrun : ReflTransGen (StepThrough i) w w') :
    KeepsRest i w w' := by
  induction hrun with
  | refl => exact .refl h
  | tail _ hstep ih => exact ih.trans (ih.owns.stepThrough hstep)

/-- A node goes on owning what belongs to it, whatever is done through it and elsewhere. -/
theorem Owns.run (h : w.Owns i)
    (hrun : ReflTransGen (fun u u' => StepElsewhere i u u' ∨ StepThrough i u u') w w') :
    w'.Owns i ∧ w'.objects[i]? = w.objects[i]? := by
  induction hrun with
  | refl => exact ⟨h, rfl⟩
  | tail _ hstep ih =>
    obtain ⟨howns, hnode⟩ := ih
    rcases hstep with helsewhere | hthrough
    · have hkeeps := howns.stepElsewhere helsewhere
      exact ⟨hkeeps.owns, hkeeps.node.trans hnode⟩
    · have hkeeps := howns.stepThrough hthrough
      exact ⟨hkeeps.owns, hkeeps.node.trans hnode⟩

end World

end Markup
