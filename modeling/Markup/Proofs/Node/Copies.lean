import Markup.Proofs.Node.Reachable
import Markup.Proofs.Node.Walk

/-!
# Copies that stay in step

A frozen node, a node of a traversed tree and a node of a nested list are copies of a node
(`World.Copies`): they have its fields and children of their own.  No change in place alters a node
or turns a list into something else (`World.KeepsNodes`), so a copy, and a copy of a copy, has these
fields ever after, and what is changed through the one is changed through the other
(`copies_stay_in_step`).
-/

namespace Markup

namespace World

open Operation

/-- A node is made that is a copy of another one. -/
inductive Copies (w : World) (i : Nat) (w' : World) (j : Nat) : Prop
  /-- The node is frozen. -/
  | freeze (hrun : (freeze (.ref i)).runIn w = (.ok (.ref j), w'))
  /-- A tree is traversed in which the node has a place, which the copy has in the answer. -/
  | traverse {t answer : Value} {path : List Nat}
      (hrun : (traverse (pure : Value → Operation Value) t).runIn w = (.ok answer, w'))
      (hat : NodeAt w.TreeParts path t i) (hcopy : NodeAt w'.TreeParts path answer j)
  /-- A tree is listed in which the node has a place, and the copy has that place in the lists. -/
  | toList {t answer : Value} {path : List Nat}
      (hrun : (toList t).runIn w = (.ok answer, w'))
      (hat : NodeAt w.TreeParts path t i) (hcopy : NodeAt w'.ListParts path answer j)

/--
What is done without assigning a field of a node: collections are changed in place, nodes are
frozen, trees are traversed or listed, values are called and nodes are made.
-/
inductive StepInPlace (w : World) : World → Prop
  | change (c : Change) (hsuits : c.Suits w) : StepInPlace w (c.run.runIn w).2
  | freeze {i : Nat} {n : Node Value} (hn : w.objects[i]? = some (.node n)) :
      StepInPlace w ((freeze (.ref i)).runIn w).2
  | traverse {i : Nat} {n : Node Value} (hn : w.objects[i]? = some (.node n)) :
      StepInPlace w ((traverse (pure : Value → Operation Value) (.ref i)).runIn w).2
  | toList {i : Nat} {n : Node Value} (hn : w.objects[i]? = some (.node n)) :
      StepInPlace w ((toList (.ref i)).runIn w).2
  | call (callee : Value) (c : Call Value) : StepInPlace w ((callValue callee c).runIn w).2
  | makeNode (name : Value) (f : NodeFields) : StepInPlace w ((makeNode name f).runIn w).2

/-- A node is a copy of another one, or a copy of such a copy, whatever was done in between. -/
inductive CopyOf (w : World) (i : Nat) : World → Nat → Prop
  | first {w' : World} {j : Nat} (h : w.Copies i w' j) : CopyOf w i w' j
  | step {w₁ w' : World} {j : Nat} (h : CopyOf w i w₁ j) (hstep : w₁.StepInPlace w') :
      CopyOf w i w' j
  | again {w₁ w' : World} {j k : Nat} (h : CopyOf w i w₁ j) (hcopy : w₁.Copies j w' k) :
      CopyOf w i w' k

/-- Nodes stay what they are, and lists stay lists. -/
structure KeepsNodes (w w' : World) : Prop where
  size_le : w.objects.size ≤ w'.objects.size
  node : ∀ {i : Nat} {n : Node Value}, w.objects[i]? = some (.node n) →
    w'.objects[i]? = some (.node n)
  list : ∀ {i : Nat} {items : List Value}, w.objects[i]? = some (.list items) →
    ∃ items', w'.objects[i]? = some (.list items')

variable {w w₁ w' : World} {i j : Nat} {n : Node Value}

theorem Retains.keepsNodes (h : w.Retains 0 w') : w.KeepsNodes w' where
  size_le := h.size_le
  node hn := h.kept (Nat.zero_le _) hn
  list hl := ⟨_, h.kept (Nat.zero_le _) hl⟩

theorem Alters.keepsNodes {opened : Nat → Prop} {stored : Value → Prop}
    (h : w.Alters opened stored w') : w.KeepsNodes w' where
  size_le := h.size_le
  node hn := h.node hn
  list hl := by
    obtain ⟨o, ho, haltered⟩ := h.altered hl
    cases haltered with
    | same => exact ⟨_, ho⟩
    | list items items' => exact ⟨items', ho⟩

end World

/-! ## Copying changes nothing -/

namespace Operation

open World

variable {w w' : World} {i j : Nat} {n : Node Value}

theorem runIn_freeze (hn : w.objects[i]? = some (.node n)) :
    (freeze (.ref i)).runIn w = (freezeNode n).runIn w := by
  rw [freeze, runIn_bind_ok (runIn_objectOf hn)]

theorem runIn_traverse (f : Value → Operation Value) (v : Value) (w : World) :
    (traverse f v).runIn w = (traverseTo f w.depthBound v).runIn w := by
  have hbound : depthBound.runIn w = (.ok w.depthBound, w) := rfl
  exact runIn_bind_ok hbound

theorem runIn_toList (hn : w.objects[i]? = some (.node n)) :
    (toList (.ref i)).runIn w =
      (transformTo (pure : Value → Operation Value) w.depthBound (.ref i)).runIn w := by
  have hbound : depthBound.runIn w = (.ok w.depthBound, w) := rfl
  rw [toList, runIn_request hn rfl rfl]
  exact runIn_bind_ok hbound

theorem retains_freeze (hn : w.objects[i]? = some (.node n)) :
    w.Retains 0 ((freeze (.ref i)).runIn w).2 := by
  rw [runIn_freeze hn]
  exact retaining_makeNode _ _ w

theorem retains_traverse (hn : w.objects[i]? = some (.node n)) :
    w.Retains 0 ((traverse (pure : Value → Operation Value) (.ref i)).runIn w).2 := by
  rw [runIn_traverse]
  exact retains_traverseTo hn

theorem retains_toList (hn : w.objects[i]? = some (.node n)) :
    w.Retains 0 ((toList (.ref i)).runIn w).2 := by
  rw [runIn_toList hn]
  exact retains_transformTo hn

end Operation

namespace World

open Operation

variable {w w₁ w' : World} {i j : Nat} {n : Node Value}

/-- Nothing that is done in place alters a node. -/
theorem StepInPlace.keepsNodes (h : w.StepInPlace w') : w.KeepsNodes w' := by
  cases h with
  | change c hsuits => exact (alters_change c w hsuits).keepsNodes
  | freeze hn => exact (retains_freeze hn).keepsNodes
  | traverse hn => exact (retains_traverse hn).keepsNodes
  | toList hn => exact (retains_toList hn).keepsNodes
  | call callee c => exact (extending_callValue callee c).retaining.of_runIn rfl |>.keepsNodes
  | makeNode name f => exact (retaining_makeNode name f w).keepsNodes

theorem Copies.keepsNodes (h : w.Copies i w' j) (hn : w.objects[i]? = some (.node n)) :
    w.KeepsNodes w' := by
  suffices hretains : w.Retains 0 w' from hretains.keepsNodes
  cases h with
  | freeze hrun =>
    have hretains := retains_freeze hn
    rwa [hrun] at hretains
  | traverse hrun hat =>
    obtain ⟨k, m, rfl, hm⟩ := hat.exists_node
    have hretains := retains_traverse hm
    rwa [hrun] at hretains
  | toList hrun hat =>
    obtain ⟨k, m, rfl, hm⟩ := hat.exists_node
    have hretains := retains_toList hm
    rwa [hrun] at hretains

/-- A copy has the fields of the node, and a list of children that is new. -/
theorem Copies.frozen (h : w.Copies i w' j) (hn : w.objects[i]? = some (.node n)) :
    w.Frozen i w.objects.size w' j := by
  cases h with
  | freeze hrun =>
    rw [runIn_freeze hn] at hrun
    exact frozen_of_freezeNode hn hrun
  | traverse hrun hat hcopy =>
    rw [runIn_traverse] at hrun
    obtain ⟨k, hk, hfrozen⟩ := nodeAt_traverseTo hat (.refl _ w) hrun
    have hsame : NodeAt w'.TreeParts _ _ k := hk.mono fun _ _ _ h => h.treeParts
    rw [hcopy.unique (fun h h' => h.unique h') hsame]
    exact hfrozen
  | toList hrun hat hcopy =>
    obtain ⟨k, m, rfl, hm⟩ := hat.exists_node
    rw [runIn_toList hm] at hrun
    obtain ⟨k, hk, hfrozen⟩ := nodeAt_transformTo hat (.refl _ w) hrun
    rw [hcopy.unique (fun h h' => h.unique h') hk]
    exact hfrozen

/-- A node, and another one with the same fields but a list of children made after some moment. -/
structure InStep (w : World) (n : Node Value) (i : Nat) (w' : World) (j : Nat) : Prop where
  size_le : w.objects.size ≤ w'.objects.size
  node : w'.objects[i]? = some (.node n)
  copy : ∃ l items, w.objects.size ≤ l ∧
    w'.objects[j]? = some (.node { n with children := .ref l }) ∧
    w'.objects[l]? = some (.list items)

theorem InStep.keep (h : InStep w n i w₁ j) (hkeep : w₁.KeepsNodes w') : InStep w n i w' j where
  size_le := Nat.le_trans h.size_le hkeep.size_le
  node := hkeep.node h.node
  copy := by
    obtain ⟨l, items, hl, hj, hlist⟩ := h.copy
    obtain ⟨items', hlist'⟩ := hkeep.list hlist
    exact ⟨l, items', hl, hkeep.node hj, hlist'⟩

/-- A copy is in step with its node, and a copy of a copy is in step with the first node. -/
theorem CopyOf.inStep (h : CopyOf w i w' j) (hn : w.objects[i]? = some (.node n))
    (hcomplete : n.Complete) : InStep w n i w' j := by
  induction h with
  | first h =>
    have hkeep := h.keepsNodes hn
    exact ⟨hkeep.size_le, hkeep.node hn, (h.frozen hn).node n hn hcomplete⟩
  | step _ hstep ih => exact ih.keep hstep.keepsNodes
  | again _ hcopy ih =>
    obtain ⟨l, items, -, hj, -⟩ := ih.copy
    have hkeep := hcopy.keepsNodes hj
    obtain ⟨l', items', hl', hk, hlist⟩ := (hcopy.frozen hj).node _ hj
      ⟨hcomplete.isVoid, hcomplete.classes, hcomplete.listeners, hcomplete.attrs⟩
    exact ⟨(ih.keep hkeep).size_le, hkeep.node ih.node, l', items',
      Nat.le_trans ih.size_le hl', hk, hlist⟩

end World

/-! ## Changing the one and the other -/

/-- Children can be added to one of the two alone. -/
def NodeChange.IsShared : NodeChange → Prop
  | .addChild _ => False
  | _ => True

namespace Operation

open World

variable {w : World} {i j : Nat} {n : Node Value} {children : Value}

/-- A change through a copy is the change through the node. -/
theorem runIn_nodeChange_copy (hi : w.objects[i]? = some (.node n))
    (hj : w.objects[j]? = some (.node { n with children := children })) {c : NodeChange}
    (hc : c.IsShared) : (c.run (.ref j)).runIn w = (c.run (.ref i)).runIn w := by
  rw [runIn_nodeChange hi, runIn_nodeChange hj]
  cases c with
  | addChild child => exact hc.elim
  | _ => rfl

/-- A child that is added through a node goes nowhere but to its children. -/
theorem kept_addChild (hi : w.objects[i]? = some (.node n)) (child : Value) {k : Nat}
    {o : Object Value} (ho : w.objects[k]? = some o) (hne : n.children ≠ .ref k) :
    (((NodeChange.addChild child).run (.ref i)).runIn w).2.objects[k]? = some o := by
  rw [runIn_nodeChange hi]
  exact (alters_runOn (.addChild child) n w).kept ho hne

end Operation

open World Operation in
/--
A copy of a node, and a copy of a copy, has the fields of the node whatever is done in place, and is
changed with it: only their children are different lists, and a child that is added through the one
is not added to the other.
-/
theorem copies_stay_in_step {w w' : World} {i j : Nat} {n : Node Value} (hw : w.Reachable)
    (hn : w.objects[i]? = some (.node n)) (hcomplete : n.Complete) (h : w.CopyOf i w' j) :
    ∃ l items, w'.objects[i]? = some (.node n) ∧
      w'.objects[j]? = some (.node { n with children := .ref l }) ∧
      w'.objects[l]? = some (.list items) ∧ n.children ≠ .ref l ∧
      (∀ c : NodeChange, c.IsShared →
        (c.run (.ref j)).runIn w' = (c.run (.ref i)).runIn w') ∧
      ∀ child, (((NodeChange.addChild child).run (.ref i)).runIn w').2.objects[l]? =
          some (.list items) ∧
        ∀ k o, n.children = .ref k → w'.objects[k]? = some o →
          (((NodeChange.addChild child).run (.ref j)).runIn w').2.objects[k]? = some o := by
  have hstep := h.inStep hn hcomplete
  obtain ⟨l, items, hl, hj, hlist⟩ := hstep.copy
  have hne : n.children ≠ .ref l := by
    intro heq
    have hhas := hw.sound i _ hn n.children (by simp [Object.holdings, Node.collections])
    have hlt := (hhas l heq).2
    omega
  refine ⟨l, items, hstep.node, hj, hlist, hne, ?_, fun child => ⟨?_, ?_⟩⟩
  · exact fun c hc => runIn_nodeChange_copy hstep.node hj hc
  · exact kept_addChild hstep.node child hlist hne
  · intro k o hk ho
    refine kept_addChild hj child ho fun heq => hne ?_
    rw [hk]
    exact heq.symm

/-! ### A copy of a copy -/

/-- A world with a node. -/
def World.withNode : World :=
  ((Operation.callValue (.ref 1) ⟨[.text "#x.y"], []⟩).runIn .initial).2

/-- The world after the node was frozen. -/
def World.withFrozen : World := ((Operation.freeze (.ref 148)).runIn .withNode).2

/-- The world after a listener was added to the frozen node. -/
def World.withListener : World :=
  (((Change.through (.ref 150) (.listen (.text "click") (.ref 1))).run).runIn .withFrozen).2

/-- The world after the frozen node was traversed. -/
def World.withTraversed : World :=
  ((Operation.traverse (pure : Value → Operation Value) (.ref 150)).runIn .withListener).2

/-- The node of that world. -/
def copiedNode : Node Value where
  name := .text "a"
  isVoid := .bool false
  id := .text "x"
  classes := .ref 144
  style := .none
  listeners := .ref 145
  attrs := .ref 146
  content := .text ""
  children := .ref 147

open World Operation in
/-- A class that is added to the node is a class of the copy of its copy. -/
theorem copies_stay_in_step_twice : ∃ l,
    World.withTraversed.objects[153]? = some (.node { copiedNode with children := .ref l }) ∧
      ((NodeChange.addClass (.text "z")).run (.ref 153)).runIn .withTraversed =
        ((NodeChange.addClass (.text "z")).run (.ref 148)).runIn .withTraversed ∧
      (((NodeChange.addChild (.text "z")).run (.ref 148)).runIn .withTraversed).2.objects[l]? =
        some (.list []) := by
  have hn : World.withNode.objects[148]? = some (.node copiedNode) := by decide +kernel
  have hfirst : World.withFrozen.objects[150]? =
      some (.node { copiedNode with children := .ref 149 }) := by decide +kernel
  have hj : World.withListener.objects[150]? =
      some (.node { copiedNode with children := .ref 149 }) := by decide +kernel
  have hk : World.withTraversed.objects[153]? =
      some (.node { copiedNode with children := .ref 154 }) := by decide +kernel
  have hreachable : World.withNode.Reachable :=
    .extend .initial (extending_callValue (.ref 1) ⟨[.text "#x.y"], []⟩ .initial)
  have hcomplete : copiedNode.Complete :=
    ⟨by decide, by decide, by decide, by decide⟩
  have hfrozen : World.withNode.CopyOf 148 .withFrozen 150 :=
    .first (.freeze (runIn_of_fst (by decide +kernel)))
  have hlistener : World.withNode.CopyOf 148 .withListener 150 :=
    hfrozen.step (.change _ ⟨150, _, rfl, hfirst⟩)
  have htraversed : World.withNode.CopyOf 148 .withTraversed 153 :=
    hlistener.again (.traverse (runIn_of_fst (by decide +kernel)) (.here ⟨rfl, _, hj, rfl⟩)
      (.here ⟨rfl, _, hk, rfl⟩))
  obtain ⟨l, items, -, hcopy, hlist, -, hshared, hchild⟩ :=
    copies_stay_in_step hreachable hn hcomplete htraversed
  have hitems : items = [] := by
    rw [hk, Option.some.injEq, Object.node.injEq, Node.mk.injEq] at hcopy
    obtain rfl := Value.ref.inj hcopy.2.2.2.2.2.2.2.2
    have hempty : World.withTraversed.objects[154]? = some (.list []) := by decide +kernel
    rw [hempty] at hlist
    cases hlist
    rfl
  rw [hitems] at hchild
  exact ⟨l, hcopy, hshared (.addClass (.text "z")) trivial, (hchild (.text "z")).1⟩

/-- A field that was assigned nothing is found anew for the copy, which has a list of its own. -/
theorem freeze_renews_missing :
    ((do
      let n ← Operation.callValue (.ref 1) ⟨[], []⟩
      Operation.setMember n "class_list" .none
      let c ← Operation.freeze n
      return (← Operation.member n "class_list", ← Operation.member c "class_list") :
        Operation (Value × Value)).runIn .initial).1 = .ok (.none, .ref 149) := by
  decide +kernel

end Markup
