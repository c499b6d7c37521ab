import Markup.Node.Walk
import Markup.Proofs.Construction.Objects
import Markup.Proofs.Stateful
import Markup.Proofs.Tree.InWorld

/-!
# What is kept while objects are made

Many operations make objects and change none that was there (`World.Retains`,
`Operation.Retaining`), even where what they make is not closed in itself, as a frozen node is not:
it has the fields of another node and a list of children of its own (`World.Frozen`).  As long as
nothing is changed, going through the items of a value answers each of them once
(`Operation.answered_of_answersOf`).
-/

namespace Markup

namespace World

/-! ## What stays -/

/-- The objects from a number on are the same, and others may have been made. -/
abbrev Retains (lo : Nat) (w w' : World) : Prop := w.ChangesOnly (· < lo) w'

variable {w w₀ w₁ w' : World} {lo lo' : Nat} {o : Object Value}

theorem Retains.kept (h : w.Retains lo w') {i : Nat} (hle : lo ≤ i)
    (ho : w.objects[i]? = some o) : w'.objects[i]? = some o :=
  h.spared ho (Nat.not_lt.mpr hle)

theorem Retains.keeps (h : w.Retains 0 w') : w.Keeps w' where
  node _ _ ho := h.kept (Nat.zero_le _) ho
  list _ _ ho := h.kept (Nat.zero_le _) ho
  map _ _ ho := h.kept (Nat.zero_le _) ho

/-- Where nothing was changed, nothing was but what may be. -/
theorem ChangesOnly.of_none {opened : Nat → Prop} (h : w.Retains 0 w') : w.ChangesOnly opened w' :=
  h.mono fun i hi => absurd hi (Nat.not_lt_zero i)

/-- Where nothing was changed at first, and then only what was made meanwhile, nothing was. -/
theorem ChangesOnly.later {opened : Nat → Prop} (h : w.Retains 0 w₁)
    (h' : w₁.ChangesOnly opened w') (hopened : ∀ i, opened i → w.objects.size ≤ i) :
    w.Retains 0 w' where
  size_le := Nat.le_trans h.size_le h'.size_le
  spared {i o} ho _ := by
    have hlt := lt_size ho
    refine h'.spared (h.spared ho (Nat.not_lt_zero i)) fun hopen => ?_
    have hle := hopened i hopen
    omega

/-! ## What a value holds -/

/-- The items that a value holds, none if it cannot be gone through. -/
def itemsHeld (w : World) (v : Value) : List Value :=
  Operation.values ((w.read v).items?.getD [])

/-- The items of an object are told by the object alone. -/
theorem items?_read_eq {id : Nat} (h : w.objects[id]? = some o) (h' : w'.objects[id]? = some o) :
    (w'.read (.ref id)).items?.map Operation.values =
      (w.read (.ref id)).items?.map Operation.values := by
  rw [read_ref h, read_ref h']
  cases o <;> simp [Object.mapParts, Registry.map, Term.items?, Operation.values, Function.comp_def]

theorem itemsHeld_eq {id : Nat} (h : w.objects[id]? = some o) (h' : w'.objects[id]? = some o) :
    w'.itemsHeld (.ref id) = w.itemsHeld (.ref id) := by
  have hgetD : ∀ ts? : Option (List Term),
      Operation.values (ts?.getD []) = (ts?.map Operation.values).getD [] := by
    intro ts?
    cases ts? <;> rfl
  rw [itemsHeld, itemsHeld, hgetD, hgetD, items?_read_eq h h']

/-- What is not there holds nothing. -/
theorem itemsHeld_of_none {id : Nat} (h : w.objects[id]? = none) : w.itemsHeld (.ref id) = [] := by
  rw [itemsHeld, read, depthBound, unfold, unfoldWith, h]
  rfl

theorem HasList.itemsHeld_eq {v : Value} {vs : List Value} (h : w.HasList v vs) :
    w.itemsHeld v = vs := by
  obtain ⟨id, hread⟩ := h.unfold_items w.objects.size
  have hitems : (w.read v).items? = some (vs.map (w.unfold true w.objects.size)) := by
    rw [read, depthBound, hread]
    rfl
  rw [itemsHeld, hitems]
  simp [Operation.values, Function.comp_def]

/-- The items of an atom are atoms. -/
theorem exists_of_mem_itemsHeld {a : Atom} {v : Value} (h : v ∈ w.itemsHeld (.atom a)) :
    ∃ b, v = .atom b := by
  obtain ⟨t, ht, rfl⟩ := List.mem_map.mp h
  cases a <;> simp [read, Term.items?] at ht <;> obtain ⟨x, -, rfl⟩ := ht <;> exact ⟨_, rfl⟩

end World

namespace Operation

open World

variable {α β : Type} {w w' : World}

theorem ok_of_itemsOf {v : Value} {vs : List Value} (h : (itemsOf v).runIn w = (.ok vs, w')) :
    vs = w.itemsHeld v ∧ w = w' := by
  rw [itemsOf, runIn_bind_ok (runIn_read v w)] at h
  obtain ⟨ts, w₁, hts, h⟩ := ok_of_runIn_bind h
  rw [runIn_ofExcept, Prod.mk.injEq] at hts
  obtain ⟨hts, rfl⟩ := hts
  cases h
  refine ⟨?_, rfl⟩
  rw [Term.items.eq_def] at hts
  split at hts
  · next ts' heq =>
    cases hts
    rw [itemsHeld, heq]
    rfl
  · cases hts

/-! ## Operations that change nothing that was there -/

/-- Whatever world it runs in, an operation keeps all objects as they are. -/
def Retaining (x : Operation α) : Prop := ∀ w : World, w.Retains 0 (x.runIn w).2

theorem Retaining.of_runIn {x : Operation α} (h : Retaining x) {r : Except Fault α}
    (hrun : x.runIn w = (r, w')) : w.Retains 0 w' := by
  have hretains := h w
  rwa [hrun] at hretains

theorem Extending.retaining {x : Operation α} (h : Extending x) : Retaining x :=
  fun w => (h w).changesOnly

/-- A sequence keeps what there was at some moment if its first part does, and the rest after it. -/
theorem retains_bind {w₀ : World} {x : Operation α} {k : α → Operation β}
    (hx : w₀.Retains 0 (x.runIn w).2)
    (hk : ∀ a w₁, x.runIn w = (.ok a, w₁) → w₀.Retains 0 w₁ →
      w₀.Retains 0 ((k a).runIn w₁).2) :
    w₀.Retains 0 ((x >>= k).runIn w).2 := by
  rw [runIn_bind]
  rcases h : x.runIn w with ⟨r, w₁⟩
  rw [h] at hx
  cases r with
  | error f => exact hx
  | ok a => exact hk a w₁ h hx

theorem closed_retaining : Closed fun _ x => Retaining x :=
  closed_moves (.refl _) fun _ _ _ => .trans

theorem retaining_mapM {f : α → Operation β} (h : ∀ a, Retaining (f a)) (items : List α) :
    Retaining (items.mapM f) :=
  closed_retaining.mapM h items

theorem retaining_answersOf {answer : Value → Operation β} (h : ∀ v, Retaining (answer v))
    (holder : Value) : Retaining (answersOf answer holder) :=
  closed_retaining.answersOf h holder

/-! ## The answers for items -/

theorem runIn_itemsOf_iff {v : Value} {vs : List Value} :
    (itemsOf v).runIn w = (.ok vs, w) ↔ (w.read v).items?.map values = some vs := by
  rw [itemsOf, runIn_bind_ok (runIn_read v w), Term.items.eq_def]
  cases (w.read v).items? with
  | none =>
    constructor
    · intro h
      cases h
    · intro h
      cases h
  | some ts =>
    rw [runIn_bind_ok (runIn_ofExcept _ w), runIn_pure, Option.map_some]
    constructor
    · intro h
      cases h
      rfl
    · intro h
      cases h
      rfl

/-- The items of an object are the same as long as the object is. -/
theorem runIn_itemsOf_same {id : Nat} {o : Object Value} (ho : w.objects[id]? = some o)
    (ho' : w'.objects[id]? = some o) {vs : List Value}
    (h : (itemsOf (.ref id)).runIn w = (.ok vs, w)) :
    (itemsOf (.ref id)).runIn w' = (.ok vs, w') := by
  rw [runIn_itemsOf_iff] at h ⊢
  rw [items?_read_eq ho ho', h]

/-- The items of a value are the same as long as nothing is changed. -/
theorem runIn_itemsOf_retained {v : Value} {vs : List Value}
    (h : (itemsOf v).runIn w = (.ok vs, w)) (hretains : w.Retains 0 w') :
    (itemsOf v).runIn w' = (.ok vs, w') := by
  cases v with
  | atom a =>
    rw [runIn_itemsOf_iff] at h ⊢
    simpa [World.read] using h
  | ref i =>
    cases ho : w.objects[i]? with
    | some o => exact runIn_itemsOf_same ho (hretains.kept (Nat.zero_le i) ho) h
    | none =>
      rw [runIn_itemsOf_iff, World.read, World.depthBound, unfold, unfoldWith, ho] at h
      cases h

/-- The items of a list. -/
theorem runIn_itemsOf {id : Nat} {vs : List Value} (h : w.objects[id]? = some (.list vs)) :
    (itemsOf (.ref id)).runIn w = (.ok vs, w) := by
  have hread : w.read (.ref id) = .list id (vs.map (w.unfold true w.objects.size)) := read_ref h
  rw [itemsOf, runIn_bind_ok (runIn_read _ w), hread, Term.items_list]
  refine (runIn_bind_ok (runIn_ofExcept _ w)).trans ?_
  simp [values, Function.comp_def]

/-- The numbers of a progression are answered like those in the list of them. -/
theorem answersFrom_progression {m : Type → Type} [Monad m] [LawfulMonad m] (p : Progression)
    (f : Int → m β) (count place : Nat) (known : List β) :
    p.answersFrom f count place known =
      (do return known.reverse ++ (← ((List.range' place count).map p.nth).mapM f)) := by
  induction count generalizing place known with
  | zero => simp [Progression.answersFrom]
  | succ count ih =>
    rw [Progression.answersFrom, List.range'_succ, List.map_cons, List.mapM_cons]
    simp [ih]

/-- Where the items are the same after all of them were answered, each is answered once. -/
theorem runIn_answersOf {answer : Value → Operation β} {v : Value} {items : List Value}
    (h : (itemsOf v).runIn w = (.ok items, w))
    (hafter : ∀ bs w', (items.mapM answer).runIn w = (.ok bs, w') →
      (itemsOf v).runIn w' = (.ok items, w')) :
    (answersOf answer v).runIn w = (items.mapM answer).runIn w := by
  rw [answersOf.eq_def]
  split
  · next p =>
    have hitems : (p.toList.map fun i => Term.atom (.int i)).map Term.toValue = items :=
      Option.some.inj (runIn_itemsOf_iff.mp h)
    rw [Progression.answers, answersFrom_progression, ← hitems, Progression.toList,
      List.range_eq_range']
    simp [Function.comp_def]
  · exact Stateful.runIn_answersFrom h hafter w.objects.size

/-- The items of a list are answered once where the list is the same afterwards. -/
theorem runIn_answersOf_list {answer : Value → Operation β} {l : Nat} {items : List Value}
    (h : w.objects[l]? = some (.list items))
    (hafter : ∀ bs w', (items.mapM answer).runIn w = (.ok bs, w') →
      w'.objects[l]? = some (.list items)) :
    (answersOf answer (.ref l)).runIn w = (items.mapM answer).runIn w :=
  runIn_answersOf (runIn_itemsOf h) fun bs w' hrun => runIn_itemsOf (hafter bs w' hrun)

/-- Doing something with each item is answering each and leaving the answers out. -/
theorem runIn_eachItem {act : Value → Operation Unit} {v : Value} {items : List Value}
    (h : (itemsOf v).runIn w = (.ok items, w))
    (hafter : ∀ us w', (items.mapM act).runIn w = (.ok us, w') →
      (itemsOf v).runIn w' = (.ok items, w')) :
    (eachItem act v).runIn w = (discard (items.mapM act) : Operation Unit).runIn w := by
  show (answersOf act v >>= fun _ => pure ()).runIn w =
    (items.mapM act >>= fun _ => pure ()).runIn w
  rw [runIn_bind, runIn_bind, runIn_answersOf h hafter]

/-- An item was answered at some moment between two worlds. -/
def AnsweredBetween (answer : Value → Operation β) (w w' : World) (v : Value) (b : β) : Prop :=
  ∃ u u', w.Retains 0 u ∧ (answer v).runIn u = (.ok b, u') ∧ u'.Retains 0 w'

theorem answered_of_mapM {answer : Value → Operation β} (h : ∀ v, Retaining (answer v))
    {items : List Value} {bs : List β} (hrun : (items.mapM answer).runIn w = (.ok bs, w')) :
    List.Forall₂ (AnsweredBetween answer w w') items bs := by
  induction items generalizing w bs with
  | nil =>
    cases hrun
    exact .nil
  | cons v items ih =>
    rw [List.mapM_cons] at hrun
    obtain ⟨b, w₁, hfirst, hrun⟩ := ok_of_runIn_bind hrun
    obtain ⟨rest, w₂, hrest, hrun⟩ := ok_of_runIn_bind hrun
    have hbefore : w.Retains 0 w₁ := (h v).of_runIn hfirst
    have hafter : w₁.Retains 0 w₂ := (retaining_mapM h items).of_runIn hrest
    cases hrun
    refine .cons ⟨w, w₁, .refl _ w, hfirst, hafter⟩ ((ih hrest).imp fun _ _ hanswered => ?_)
    obtain ⟨u, u', hu, hanswer, hu'⟩ := hanswered
    exact ⟨u, u', hbefore.trans hu, hanswer, hu'⟩

/-- Where nothing is added meanwhile, each item of an object is answered once. -/
theorem answered_of_answersOf {answer : Value → Operation β} (h : ∀ v, Retaining (answer v))
    {id : Nat} {o : Object Value} (ho : w.objects[id]? = some o) {bs : List β}
    (hrun : (answersOf answer (.ref id)).runIn w = (.ok bs, w')) :
    List.Forall₂ (AnsweredBetween answer w w') (w.itemsHeld (.ref id)) bs := by
  have hitems : (itemsOf (.ref id)).runIn w = (.ok (w.itemsHeld (.ref id)), w) := by
    have hfirst : (answersFrom answer (.ref id) (w.objects.size + 1) 0).runIn w = (.ok bs, w') :=
      hrun
    rw [answersFrom] at hfirst
    obtain ⟨items, w₁, hitems, -⟩ := ok_of_runIn_bind hfirst
    obtain ⟨rfl, rfl⟩ := ok_of_itemsOf hitems
    exact hitems
  have hafter : ∀ cs w₁, ((w.itemsHeld (.ref id)).mapM answer).runIn w = (.ok cs, w₁) →
      (itemsOf (.ref id)).runIn w₁ = (.ok (w.itemsHeld (.ref id)), w₁) := by
    intro cs w₁ hmap
    have hretains : w.Retains 0 w₁ := (retaining_mapM h _).of_runIn hmap
    exact runIn_itemsOf_same ho (hretains.kept (Nat.zero_le _) ho) hitems
  rw [runIn_answersOf hitems hafter] at hrun
  exact answered_of_mapM h hrun

end Operation

/-! ## Freezing a node -/

/-- No field of a node that a new node would have to find for itself is missing. -/
structure Node.Complete (n : Node Value) : Prop where
  isVoid : n.isVoid ≠ .none
  classes : n.classes ≠ .none
  listeners : n.listeners ≠ .none
  attrs : n.attrs ≠ .none

/-- A new node has the fields of another one, and a new list of children. -/
structure World.Frozen (w : World) (i lo : Nat) (w' : World) (j : Nat) : Prop where
  new : lo ≤ j
  node : ∀ n, w.objects[i]? = some (.node n) → n.Complete →
    ∃ l items, lo ≤ l ∧ w'.objects[j]? = some (.node { n with children := .ref l }) ∧
      w'.objects[l]? = some (.list items)

namespace World

variable {w w₀ w' w'' : World} {i j lo lo' : Nat}

theorem Frozen.mono (h : w.Frozen i lo w' j) (hle : lo' ≤ lo) (hkeep : w'.Retains lo w'') :
    w.Frozen i lo' w'' j where
  new := Nat.le_trans hle h.new
  node n hn hcomplete := by
    obtain ⟨l, items, hl, hnode, hlist⟩ := h.node n hn hcomplete
    exact ⟨l, items, Nat.le_trans hle hl, hkeep.kept h.new hnode, hkeep.kept hl hlist⟩

theorem retains_withCollections (w : World) (f : NodeFields) :
    w.Retains lo (w.withCollections f) :=
  (extends_withCollections w f).changesOnly

/-- Of the collections of a complete node, a frozen copy is only given other children. -/
theorem attrsFor_frozenFields {n : Node Value} (h : n.Complete) (w : World) :
    w.classesFor n.frozenFields = (n.classes, w) ∧
      w.listenersFor n.frozenFields = (n.listeners, w) ∧
        w.attrsFor n.frozenFields = (n.attrs, w) := by
  have hclasses : w.classesFor n.frozenFields = (n.classes, w) := orMade_some h.classes w _
  have hlisteners : w.listenersFor n.frozenFields = (n.listeners, w) := by
    rw [listenersFor, hclasses]
    exact orMade_some h.listeners w _
  refine ⟨hclasses, hlisteners, ?_⟩
  rw [attrsFor, hlisteners]
  exact orMade_some h.attrs w _

theorem withCollections_frozenFields {n : Node Value} (h : n.Complete) (w : World) :
    w.withCollections n.frozenFields = w.add (.list []) := by
  rw [withCollections, childrenFor, (attrsFor_frozenFields h w).2.2]
  rfl

theorem nodeOver_frozenFields {n : Node Value} (h : n.Complete) (w : World) :
    w.nodeOver n.name n.isVoid n.frozenFields = { n with children := .ref w.objects.size } := by
  obtain ⟨hclasses, hlisteners, hattrs⟩ := attrsFor_frozenFields h w
  rw [nodeOver, hclasses, hlisteners, hattrs, childrenFor, hattrs]
  rfl

end World

namespace Operation

open World

variable {w w' : World} {i : Nat} {n : Node Value} {v : Value}

theorem retaining_makeNode (name : Value) (f : NodeFields) : Retaining (makeNode name f) := by
  intro w
  rcases cases_makeNode name f w with ⟨fault, hrun⟩ | ⟨flag, -, hrun⟩
  · rw [hrun]
    exact .refl _ w
  · rw [hrun]
    exact (retains_withCollections w f).trans changesOnly_add

/-- Freezing makes a node whose children are a new and empty list. -/
theorem exists_frozen_of_freezeNode (h : (freezeNode n).runIn w = (.ok v, w')) :
    ∃ j c l, v = .ref j ∧ w.objects.size ≤ j ∧ w.objects.size ≤ l ∧
      w'.objects[j]? = some (.node c) ∧ c.children = .ref l ∧ w'.objects[l]? = some (.list []) ∧
      (n.Complete → c = { n with children := .ref l }) := by
  rcases cases_makeNode n.name n.frozenFields w with ⟨fault, hrun⟩ | ⟨flag, hvoid, hrun⟩
  · rw [freezeNode, hrun] at h
    cases h
  · rw [freezeNode, hrun, Prod.mk.injEq, Except.ok.injEq] at h
    obtain ⟨rfl, rfl⟩ := h
    have hattrs : w.Extends (w.attrsFor n.frozenFields).2 :=
      (extends_orMade _ rfl).trans ((extends_orMade _ rfl).trans (extends_orMade _ rfl))
    have hlist : (w.withCollections n.frozenFields).objects[
        (w.attrsFor n.frozenFields).2.objects.size]? = some (.list []) := get_add_new
    refine ⟨_, _, (w.attrsFor n.frozenFields).2.objects.size, rfl,
      (extends_withCollections w _).size_le, hattrs.size_le, get_add_new, rfl, get_add hlist, ?_⟩
    intro hcomplete
    have hflag : flag = n.isVoid := by
      have hsame := hvoid.symm.trans (runIn_voidOr_some hcomplete.isVoid n.name w)
      rw [Prod.mk.injEq, Except.ok.injEq] at hsame
      exact hsame.1
    rw [hflag, (attrsFor_frozenFields hcomplete w).2.2, nodeOver_frozenFields hcomplete w]

theorem frozen_of_freezeNode {w₀ : World} (hn : w₀.objects[i]? = some (.node n)) {j : Nat}
    (h : (freezeNode n).runIn w = (.ok (.ref j), w')) : w₀.Frozen i w.objects.size w' j := by
  obtain ⟨j', c, l, hj, hlej, hlel, hc, -, hl, hsame⟩ := exists_frozen_of_freezeNode h
  obtain rfl := Value.ref.inj hj
  refine ⟨hlej, fun m hm hcomplete => ⟨l, [], hlel, ?_, hl⟩⟩
  rw [hn, Option.some.injEq, Object.node.injEq] at hm
  subst hm
  rw [hc, hsame hcomplete]

/-- A node that is asked to freeze itself is frozen. -/
theorem runIn_askFrozen (hn : w.objects[i]? = some (.node n)) :
    (askFrozen (.ref i)).runIn w = (freezeNode n).runIn w := by
  rw [askFrozen, runIn_request hn rfl rfl, freeze, runIn_bind_ok (runIn_objectOf hn)]

theorem runIn_isNode (v : Value) (w : World) :
    ∃ b, (isNode v).runIn w = (.ok b, w) ∧
      (b = true ↔ ∃ i n, v = .ref i ∧ w.objects[i]? = some (.node n)) := by
  cases v with
  | atom a => exact ⟨false, rfl, by simp⟩
  | ref i =>
    cases ho : w.objects[i]? with
    | none =>
      refine ⟨false, ?_, by simp [ho]⟩
      rw [isNode, runIn_bind_ok (runIn_objectOf_ref i w), ho]
      rfl
    | some o =>
      rw [isNode, runIn_bind_ok (runIn_objectOf ho)]
      cases o with
      | node n => exact ⟨true, rfl, by simp [ho]⟩
      | _ => exact ⟨false, rfl, by simp [ho]⟩

/-- Replacing the children of a node makes one list. -/
theorem runIn_replaceChildren (hn : w.objects[i]? = some (.node n)) (vs : List Value) :
    (replaceChildren (.ref i) vs).runIn w = (.ok (),
      (w.add (.list vs)).replace i (.node { n with children := .ref w.objects.size })) := by
  have hlist : (makeList vs).runIn w = (.ok (.ref w.objects.size), w.add (.list vs)) := rfl
  have hn' : (w.add (.list vs)).objects[i]? = some (.node n) := get_add hn
  rw [replaceChildren, runIn_bind_ok hlist, setMember, runIn_bind_ok (runIn_objectOf hn')]
  rfl

end Operation

end Markup
