import Markup.Proofs.Node.Frozen

/-!
# What the walkers make

A walker that hands every frozen node back makes objects and changes none that was there
(`Operation.retains_traverseTo`, `Operation.retains_transformTo`).  What it answers has the frozen
nodes where the tree has the nodes: a traversal at the same place of a tree of its own
(`Operation.nodeAt_traverseTo`), a transformation at the same place of a nested list
(`Operation.nodeAt_transformTo`).
-/

namespace Markup

namespace Operation

open World

variable {w w' : World} {i : Nat} {n : Node Value} {v : Value}

/-! ## The walkers -/

/-- What a walker does with a child. -/
def walkChild {m : Type → Type} [Monad m] [MonadLiftT Operation m] (walk : Value → m Value)
    (c : Value) : m Value := do
  if ← isNode c then walk c else return c

/-- For an operation, a child is simply asked whether it is a node. -/
theorem walkChild_eq (walk : Value → Operation Value) (c : Value) :
    walkChild walk c = isNode c >>= fun b => if b then walk c else return c := rfl

theorem retaining_walkChild {walk : Value → Operation Value}
    (h : ∀ (w : World) (i : Nat) (n : Node Value), w.objects[i]? = some (.node n) →
      w.Retains 0 ((walk (.ref i)).runIn w).2) (c : Value) : Retaining (walkChild walk c) := by
  intro w
  obtain ⟨b, hb, hnode⟩ := runIn_isNode c w
  rw [walkChild_eq, runIn_bind_ok hb]
  cases b with
  | false => exact .refl _ w
  | true =>
    obtain ⟨i, n, rfl, hn⟩ := hnode.mp rfl
    exact h w i n hn

/-- A child that is a node is walked. -/
theorem runIn_walkChild (walk : Value → Operation Value) (hn : w.objects[i]? = some (.node n)) :
    (walkChild walk (.ref i)).runIn w = (walk (.ref i)).runIn w := by
  obtain ⟨b, hb, hnode⟩ := runIn_isNode (.ref i) w
  rw [walkChild_eq, runIn_bind_ok hb, hnode.mpr ⟨i, n, rfl, hn⟩]
  rfl

variable {depth : Nat}

/-- A node is frozen first, and its children are looked up in the world after that. -/
theorem runIn_frozenThen (hn : w.objects[i]? = some (.node n)) {β : Type}
    (k : Value → Value → Operation β) :
    (do let root ← askFrozen (.ref i); let children ← member (.ref i) "children"
        k root children : Operation β).runIn w =
      (freezeNode n >>= fun root => k root n.children).runIn w := by
  have hretains : w.Retains 0 ((freezeNode n).runIn w).2 := retaining_makeNode _ _ w
  rw [runIn_bind, runIn_bind, runIn_askFrozen hn]
  rcases hrun : (freezeNode n).runIn w with ⟨r, w₁⟩
  rw [hrun] at hretains
  cases r with
  | error f => rfl
  | ok root => exact runIn_bind_ok (runIn_member (hretains.kept (Nat.zero_le _) hn) rfl rfl)

theorem runIn_traverseTo (hn : w.objects[i]? = some (.node n)) :
    (traverseTo (pure : Value → Operation Value) (depth + 1) (.ref i)).runIn w = (do
      let root ← freezeNode n
      let walked ← answersOf (walkChild (traverseTo pure depth)) n.children
      replaceChildren root walked
      return root : Operation Value).runIn w :=
  runIn_frozenThen hn fun root children => do
    let walked ← answersOf (walkChild (traverseTo pure depth)) children
    replaceChildren root walked
    return root

theorem runIn_transformTo (hn : w.objects[i]? = some (.node n)) :
    (transformTo (pure : Value → Operation Value) (depth + 1) (.ref i)).runIn w = (do
      let root ← freezeNode n
      let rest ← answersOf (walkChild (transformTo pure depth)) n.children
      makeList (root :: rest) : Operation Value).runIn w :=
  runIn_frozenThen hn fun root children => do
    let rest ← answersOf (walkChild (transformTo pure depth)) children
    makeList (root :: rest)

/-- Walking nodes changes nothing that was there. -/
theorem retains_traverseTo (hn : w.objects[i]? = some (.node n)) :
    w.Retains 0 ((traverseTo (pure : Value → Operation Value) depth (.ref i)).runIn w).2 := by
  induction depth generalizing w i n with
  | zero => exact .refl _ w
  | succ depth ih =>
    have hanswers : ∀ holder, Retaining (answersOf (walkChild (traverseTo pure depth)) holder) :=
      retaining_answersOf (retaining_walkChild fun w i n hn => ih hn)
    rw [runIn_traverseTo hn]
    refine retains_bind (retaining_makeNode _ _ w) fun root w₁ hroot h₁ => ?_
    obtain ⟨j, c, -, rfl, hj, -, hc, -⟩ := exists_frozen_of_freezeNode hroot
    refine retains_bind (h₁.trans (hanswers _ w₁)) fun vs w₂ hvs h₂ => ?_
    have hkept := ((hanswers n.children).of_runIn hvs).kept (Nat.zero_le _) hc
    rw [runIn_bind_ok (runIn_replaceChildren hkept vs)]
    exact (h₂.trans changesOnly_add).replace hj

theorem retains_transformTo (hn : w.objects[i]? = some (.node n)) :
    w.Retains 0 ((transformTo (pure : Value → Operation Value) depth (.ref i)).runIn w).2 := by
  induction depth generalizing w i n with
  | zero => exact .refl _ w
  | succ depth ih =>
    have hanswers : ∀ holder, Retaining (answersOf (walkChild (transformTo pure depth)) holder) :=
      retaining_answersOf (retaining_walkChild fun w i n hn => ih hn)
    rw [runIn_transformTo hn]
    refine retains_bind (retaining_makeNode _ _ w) fun root w₁ _ h₁ => ?_
    exact retains_bind (h₁.trans (hanswers _ w₁)) fun vs w₂ _ h₂ =>
      show w.Retains 0 (w₂.add _) from h₂.trans changesOnly_add

/-- What a traversal that succeeds has done. -/
theorem ok_of_traverseTo (hn : w.objects[i]? = some (.node n))
    (h : (traverseTo (pure : Value → Operation Value) (depth + 1) (.ref i)).runIn w =
      (.ok v, w')) :
    ∃ j c w₁ vs w₂, (freezeNode n).runIn w = (.ok (.ref j), w₁) ∧
      w₁.objects[j]? = some (.node c) ∧
      (answersOf (walkChild (traverseTo pure depth)) n.children : Operation _).runIn w₁ =
        (.ok vs, w₂) ∧
      w₁.Retains 0 w₂ ∧ v = .ref j ∧
      w' = (w₂.add (.list vs)).replace j (.node { c with children := .ref w₂.objects.size }) := by
  rw [runIn_traverseTo hn] at h
  obtain ⟨root, w₁, hroot, h⟩ := ok_of_runIn_bind h
  obtain ⟨j, c, -, rfl, -, -, hc, -⟩ := exists_frozen_of_freezeNode hroot
  obtain ⟨vs, w₂, hvs, h⟩ := ok_of_runIn_bind h
  have hretains : w₁.Retains 0 w₂ := (retaining_answersOf (retaining_walkChild fun _ _ _ hn =>
    retains_traverseTo hn) n.children).of_runIn hvs
  rw [runIn_bind_ok (runIn_replaceChildren (hretains.kept (Nat.zero_le _) hc) vs)] at h
  cases h
  exact ⟨j, c, w₁, vs, w₂, hroot, hc, hvs, hretains, rfl, rfl⟩

/-- What a transformation that succeeds has done. -/
theorem ok_of_transformTo (hn : w.objects[i]? = some (.node n))
    (h : (transformTo (pure : Value → Operation Value) (depth + 1) (.ref i)).runIn w =
      (.ok v, w')) :
    ∃ j w₁ vs w₂, (freezeNode n).runIn w = (.ok (.ref j), w₁) ∧
      (answersOf (walkChild (transformTo pure depth)) n.children : Operation _).runIn w₁ =
        (.ok vs, w₂) ∧
      w₁.Retains 0 w₂ ∧ v = .ref w₂.objects.size ∧ w' = w₂.add (.list (.ref j :: vs)) := by
  rw [runIn_transformTo hn] at h
  obtain ⟨root, w₁, hroot, h⟩ := ok_of_runIn_bind h
  obtain ⟨j, -, -, rfl, -⟩ := exists_frozen_of_freezeNode hroot
  obtain ⟨vs, w₂, hvs, h⟩ := ok_of_runIn_bind h
  have hretains : w₁.Retains 0 w₂ := (retaining_answersOf (retaining_walkChild fun _ _ _ hn =>
    retains_transformTo hn) n.children).of_runIn hvs
  cases h
  exact ⟨j, w₁, vs, w₂, hroot, hvs, hretains, rfl, rfl⟩

end Operation

/-! ## Places -/

/-- A node is found by going down from a value along places among children. -/
inductive NodeAt (parts : Value → Nat → List Value → Prop) : List Nat → Value → Nat → Prop
  | here {v : Value} {i : Nat} {items : List Value} (h : parts v i items) : NodeAt parts [] v i
  | under {v c : Value} {i j k : Nat} {items : List Value} {path : List Nat}
      (h : parts v i items) (hk : items[k]? = some c) (hc : NodeAt parts path c j) :
      NodeAt parts (k :: path) v j

namespace World

/-- A node and what it holds for children. -/
def TreeParts (w : World) (v : Value) (i : Nat) (items : List Value) : Prop :=
  v = .ref i ∧ ∃ n, w.objects[i]? = some (.node n) ∧ items = w.itemsHeld n.children

/-- A list of a node and of what there is for its children. -/
def ListParts (w : World) (v : Value) (i : Nat) (items : List Value) : Prop :=
  w.HasList v (.ref i :: items)

/-- A node with a list for its children, both of them new. -/
def NewParts (lo : Nat) (w : World) (v : Value) (i : Nat) (items : List Value) : Prop :=
  v = .ref i ∧ lo ≤ i ∧ ∃ n l, w.objects[i]? = some (.node n) ∧ n.children = .ref l ∧ lo ≤ l ∧
    w.objects[l]? = some (.list items)

variable {w w' : World} {v : Value} {i j lo lo' : Nat} {items : List Value} {path : List Nat}

theorem TreeParts.unique {items' : List Value} (h : w.TreeParts v i items)
    (h' : w.TreeParts v j items') : i = j ∧ items = items' := by
  obtain ⟨rfl, n, hn, rfl⟩ := h
  obtain ⟨hj, m, hm, rfl⟩ := h'
  obtain rfl := Value.ref.inj hj
  rw [hn, Option.some.injEq, Object.node.injEq] at hm
  subst hm
  exact ⟨rfl, rfl⟩

theorem ListParts.unique {items' : List Value} (h : w.ListParts v i items)
    (h' : w.ListParts v j items') : i = j ∧ items = items' := by
  obtain ⟨l, rfl, hl⟩ := h
  obtain ⟨l', hl', hitems⟩ := h'
  obtain rfl := Value.ref.inj hl'
  rw [hl] at hitems
  cases hitems
  exact ⟨rfl, rfl⟩

theorem NewParts.treeParts (h : w.NewParts lo v i items) : w.TreeParts v i items := by
  obtain ⟨rfl, -, n, l, hn, hl, -, hlist⟩ := h
  exact ⟨rfl, n, hn, (HasList.itemsHeld_eq ⟨l, hl, hlist⟩).symm⟩

theorem NewParts.mono (h : w.NewParts lo v i items) (hle : lo' ≤ lo)
    (hkeep : w.Retains lo w') : w'.NewParts lo' v i items := by
  obtain ⟨rfl, hi, n, l, hn, hl, hlo, hlist⟩ := h
  exact ⟨rfl, Nat.le_trans hle hi, n, l, hkeep.kept hi hn, hl, Nat.le_trans hle hlo,
    hkeep.kept hlo hlist⟩

theorem ListParts.retain (h : w.ListParts v i items) (hkeep : w.Retains 0 w') :
    w'.ListParts v i items := by
  obtain ⟨l, hv, hl⟩ := h
  exact ⟨l, hv, hkeep.kept (Nat.zero_le _) hl⟩

end World

theorem NodeAt.mono {parts parts' : Value → Nat → List Value → Prop} {path : List Nat} {v : Value}
    {j : Nat} (h : NodeAt parts path v j)
    (hparts : ∀ v i items, parts v i items → parts' v i items) : NodeAt parts' path v j := by
  induction h with
  | here h => exact .here (hparts _ _ _ h)
  | under h hk _ ih => exact .under (hparts _ _ _ h) hk ih

/-- There is one node at a place. -/
theorem NodeAt.unique {parts : Value → Nat → List Value → Prop} {path : List Nat} {v : Value}
    {i j : Nat} (hparts : ∀ {v i j items items'}, parts v i items → parts v j items' →
      i = j ∧ items = items') (hi : NodeAt parts path v i) (hj : NodeAt parts path v j) :
    i = j := by
  induction hi generalizing j with
  | here h =>
    cases hj with
    | here h' => exact (hparts h h').1
  | under h hk _ ih =>
    cases hj with
    | under h' hk' hc' =>
      obtain ⟨-, rfl⟩ := hparts h h'
      rw [hk, Option.some.injEq] at hk'
      subst hk'
      exact ih hc'

/-- What has a place in a tree is a node. -/
theorem NodeAt.exists_node {w : World} {path : List Nat} {v : Value} {j : Nat}
    (h : NodeAt w.TreeParts path v j) :
    ∃ i n, v = .ref i ∧ w.objects[i]? = some (.node n) := by
  cases h with
  | here h =>
    obtain ⟨rfl, n, hn, -⟩ := h
    exact ⟨_, n, rfl, hn⟩
  | under h =>
    obtain ⟨rfl, n, hn, -⟩ := h
    exact ⟨_, n, rfl, hn⟩

namespace Operation

open World

variable {w₀ w w' : World} {i j k depth : Nat} {n : Node Value} {v : Value}

/-- A child that is a node is walked between the two worlds. -/
theorem exists_walked {walk : Value → Operation Value} (hkeep : w₀.Retains 0 w)
    (hwalk : ∀ (w : World) (i : Nat) (n : Node Value), w.objects[i]? = some (.node n) →
      w.Retains 0 ((walk (.ref i)).runIn w).2)
    {vs : List Value} (hrun : (answersOf (walkChild walk) n.children).runIn w = (.ok vs, w'))
    {m : Node Value}
    (hk : (w₀.itemsHeld n.children)[k]? = some (.ref j))
    (hm : w₀.objects[j]? = some (.node m)) :
    ∃ u u' answer, vs[k]? = some answer ∧ w.Retains 0 u ∧
      (walk (.ref j)).runIn u = (.ok answer, u') ∧ u'.Retains 0 w' := by
  cases hchildren : n.children with
  | atom a =>
    rw [hchildren] at hk
    obtain ⟨b, hb⟩ := exists_of_mem_itemsHeld (List.mem_of_getElem? hk)
    cases hb
  | ref l =>
    rw [hchildren] at hk hrun
    obtain ⟨o, ho⟩ : ∃ o, w₀.objects[l]? = some o := by
      refine Option.ne_none_iff_exists'.mp fun hnone => ?_
      rw [itemsHeld_of_none hnone] at hk
      cases hk
    have ho' := hkeep.kept (Nat.zero_le _) ho
    rw [← itemsHeld_eq ho ho'] at hk
    have hall := answered_of_answersOf (retaining_walkChild hwalk) ho' hrun
    have hlt : k < vs.length := by
      rw [← hall.length_eq]
      exact (List.getElem?_eq_some_iff.mp hk).1
    obtain ⟨u, u', hu, hanswer, hu'⟩ := hall.get (List.getElem?_eq_some_iff.mp hk).1 hlt
    have heq : (w.itemsHeld (.ref l)).get ⟨k, (List.getElem?_eq_some_iff.mp hk).1⟩ = .ref j :=
      (List.getElem?_eq_some_iff.mp hk).2
    have hthere := hu.kept (Nat.zero_le _) (hkeep.kept (Nat.zero_le _) hm)
    rw [heq, runIn_walkChild walk hthere] at hanswer
    exact ⟨u, u', _, List.getElem?_eq_getElem hlt, hu, hanswer, hu'⟩

/-- Where a tree has a node, a traversal answers with a tree that has the frozen node there. -/
theorem nodeAt_traverseTo {path : List Nat}
    (hat : NodeAt w₀.TreeParts path v i) (hkeep : w₀.Retains 0 w) {answer : Value}
    (hrun : (traverseTo (pure : Value → Operation Value) depth v).runIn w = (.ok answer, w')) :
    ∃ j, NodeAt (w'.NewParts w.objects.size) path answer j ∧
      w₀.Frozen i w.objects.size w' j := by
  induction depth generalizing path v w w' answer with
  | zero => cases hrun
  | succ depth ih =>
    obtain ⟨i₀, n, rfl, hn⟩ := hat.exists_node
    have hn' := hkeep.kept (Nat.zero_le _) hn
    obtain ⟨j, c, w₁, vs, w₂, hfreeze, hc, hanswers, hretains, rfl, rfl⟩ :=
      ok_of_traverseTo hn' hrun
    have hsize : w.Retains 0 w₁ := (retaining_makeNode _ _).of_runIn hfreeze
    obtain ⟨j', c', l, hj, hlej, -, hc', -, -, hsame⟩ := exists_frozen_of_freezeNode hfreeze
    obtain rfl := Value.ref.inj hj
    rw [hc, Option.some.injEq, Object.node.injEq] at hc'
    subst hc'
    have hltj := lt_size hc
    have hle := hretains.size_le
    -- the list of the answers is made last, and the node is replaced for it
    let c₃ : Node Value := { c with children := .ref w₂.objects.size }
    let w₃ := (w₂.add (.list vs)).replace j (.node c₃)
    have hnode : w₃.objects[j]? = some (.node c₃) :=
      get_replace_self (by rw [size_add]; omega)
    have hlist : w₃.objects[w₂.objects.size]? = some (.list vs) := by
      have hne : w₂.objects.size ≠ j := by omega
      rw [get_replace_ne hne, get_add_new]
    have hparts : w₃.NewParts w.objects.size (.ref j) j vs :=
      ⟨rfl, hlej, c₃, w₂.objects.size, hnode, rfl, by omega, hlist⟩
    cases hat with
    | here h =>
      obtain ⟨hi, -⟩ := h
      obtain rfl := Value.ref.inj hi
      refine ⟨j, .here hparts, hlej, fun m hm hcomplete => ?_⟩
      rw [hn, Option.some.injEq, Object.node.injEq] at hm
      subst hm
      refine ⟨w₂.objects.size, vs, by omega, ?_, hlist⟩
      rw [hnode]
      simp only [c₃, hsame hcomplete]
    | under h hk hat =>
      obtain ⟨hi, m, hm, rfl⟩ := h
      obtain rfl := Value.ref.inj hi
      rw [hn, Option.some.injEq, Object.node.injEq] at hm
      subst hm
      obtain ⟨k, m, rfl, hm⟩ := hat.exists_node
      obtain ⟨u, u', answer, hk', hu, hanswer, hu'⟩ := exists_walked (hkeep.trans hsize)
        (fun _ _ _ hn => retains_traverseTo hn) hanswers hk hm
      obtain ⟨j', hat', hfrozen⟩ := ih hat ((hkeep.trans hsize).trans hu) hanswer
      have hsize' := hsize.size_le
      have hsizeu := hu.size_le
      have hlater : u'.Retains u.objects.size w₃ :=
        (hu'.trans changesOnly_add).of_none.trans (changesOnly_replace (by omega))
      refine ⟨j', .under hparts hk' (hat'.mono fun _ _ _ h => h.mono (by omega) hlater), ?_⟩
      exact hfrozen.mono (by omega) hlater

/-- Where a tree has a node, a transformation answers with a nested list that has the frozen node
there. -/
theorem nodeAt_transformTo {path : List Nat}
    (hat : NodeAt w₀.TreeParts path v i) (hkeep : w₀.Retains 0 w) {answer : Value}
    (hrun : (transformTo (pure : Value → Operation Value) depth v).runIn w = (.ok answer, w')) :
    ∃ j, NodeAt w'.ListParts path answer j ∧ w₀.Frozen i w.objects.size w' j := by
  induction depth generalizing path v w w' answer with
  | zero => cases hrun
  | succ depth ih =>
    obtain ⟨i₀, n, rfl, hn⟩ := hat.exists_node
    have hn' := hkeep.kept (Nat.zero_le _) hn
    obtain ⟨j, w₁, vs, w₂, hfreeze, hanswers, hretains, rfl, rfl⟩ := ok_of_transformTo hn' hrun
    have hsize : w.Retains 0 w₁ := (retaining_makeNode _ _).of_runIn hfreeze
    have hlast : w₂.Retains 0 (w₂.add (.list (.ref j :: vs))) := changesOnly_add
    have hparts : (w₂.add (.list (.ref j :: vs))).ListParts (.ref w₂.objects.size) j vs :=
      ⟨_, rfl, get_add_new⟩
    cases hat with
    | here h =>
      obtain ⟨hi, -⟩ := h
      obtain rfl := Value.ref.inj hi
      refine ⟨j, .here hparts, ?_⟩
      exact (frozen_of_freezeNode hn hfreeze).mono (Nat.le_refl _)
        (hretains.trans hlast).of_none
    | under h hk hat =>
      obtain ⟨hi, m, hm, rfl⟩ := h
      obtain rfl := Value.ref.inj hi
      rw [hn, Option.some.injEq, Object.node.injEq] at hm
      subst hm
      obtain ⟨k, m, rfl, hm⟩ := hat.exists_node
      obtain ⟨u, u', answer, hk', hu, hanswer, hu'⟩ := exists_walked (hkeep.trans hsize)
        (fun _ _ _ hn => retains_transformTo hn) hanswers hk hm
      obtain ⟨j', hat', hfrozen⟩ := ih hat ((hkeep.trans hsize).trans hu) hanswer
      have hlater := hu'.trans hlast
      refine ⟨j', .under hparts hk' (hat'.mono fun _ _ _ h => h.retain hlater), ?_⟩
      exact hfrozen.mono (Nat.le_trans hsize.size_le hu.size_le) hlater.of_none

end Operation

end Markup
