import Markup.Node.Visitor
import Markup.Proofs.Node.Copies
import Markup.Proofs.Node.Lockstep

/-!
# The two walkers visit and build the same

A visitor that respects the tree is called in the same way by the two walkers, which end with the
same fault or answer with the same nodes: the one in a nested list, the other in a tree of which
that list can be made (`walkers_agree`).  Visitors that do not answer with nodes, or that look at
the nodes which they gave back, are not called in the same way (`walks_part`).
-/

namespace Markup

/-! ## The list of a tree -/

namespace World

/-- A node of another world is a copy of a node, without children. -/
def FrozenTo (w w' : World) (i j : Nat) : Prop :=
  ∃ n l, w.objects[i]? = some (.node n) ∧
    w'.objects[j]? = some (.node { n with children := .ref l }) ∧
    w'.objects[l]? = some (.list [])

variable {w₀ w w' : World} {i j : Nat}

theorem FrozenTo.retain (h : w₀.FrozenTo w i j) (hkeep : w.Retains 0 w') : w₀.FrozenTo w' i j := by
  obtain ⟨n, l, hn, hj, hl⟩ := h
  exact ⟨n, l, hn, hkeep.kept (Nat.zero_le _) hj, hkeep.kept (Nat.zero_le _) hl⟩

end World

namespace Operation

open World

variable {w₀ w : World}

/--
A value is turned into a list of frozen nodes, and nothing that was there is changed: the answer
nests nodes that are copies of those in the tree, and the texts of the tree.
-/
def ListsFrozen (w₀ : World) (x : Operation Value) (t : Skeleton) : Prop :=
  ∀ w, w₀.Retains 0 w → ∃ a w' u, x.runIn w = (.ok a, w') ∧ w.Retains 0 w' ∧
    w'.Nests (· < w'.objects.size) a u ∧ t.Corresponds (w₀.FrozenTo w') u

theorem listsFrozen_mapM {f : Value → Operation Value} {vs : List Value} {ts : List Skeleton}
    (h : List.Forall₂ (fun v t => ListsFrozen w₀ (f v) t) vs ts) (hw : w₀.Retains 0 w) :
    ∃ as w' us, (vs.mapM f).runIn w = (.ok as, w') ∧ w.Retains 0 w' ∧
      List.Forall₂ (w'.Nests (· < w'.objects.size)) as us ∧
      List.Forall₂ (Skeleton.Corresponds (w₀.FrozenTo w')) ts us := by
  induction h generalizing w with
  | nil => exact ⟨[], w, [], rfl, .refl _ w, .nil, .nil⟩
  | cons hv _ ih =>
    obtain ⟨a, w₁, u, hrun, hkeep, hnests, hcorresponds⟩ := hv w hw
    obtain ⟨as, w', us, hrun', hkeep', hnest, hcorrespond⟩ := ih (hw.trans hkeep)
    refine ⟨a :: as, w', u :: us, ?_, hkeep.trans hkeep', .cons ?_ hnest, .cons ?_ hcorrespond⟩
    · rw [List.mapM_cons, runIn_bind_ok hrun, runIn_bind_ok hrun']
      rfl
    · exact hnests.mono (fun _ hi => Nat.lt_of_lt_of_le hi hkeep'.size_le)
        fun _ _ _ => hkeep'.kept (Nat.zero_le _)
    · exact hcorresponds.mono fun _ _ hfrozen => hfrozen.retain hkeep'

/-- A tree is listed node by node. -/
theorem listsFrozen_transformTo {p : Nat → Prop} {depth i : Nat} {ts : List Skeleton}
    (hheight : (Skeleton.node i ts).height ≤ depth) (h : w₀.Spans p (.ref i) (.node i ts)) :
    ListsFrozen w₀ (transformTo pure depth (.ref i)) (.node i ts) := by
  induction depth generalizing i ts with
  | zero =>
    rw [Skeleton.height] at hheight
    omega
  | succ depth ih =>
    rw [Skeleton.height] at hheight
    intro w hw
    cases h with
    | @node _ l n vs _ hn hfreezable _ hchildren hlist _ hsub =>
      have hn' := hw.kept (Nat.zero_le _) hn
      have hfreeze := runIn_freezeNode hfreezable w
      have hfrozen := retains_withFrozenCopy w n
      have hparts : List.Forall₂ (fun v t =>
          ListsFrozen w₀ (walkChild (transformTo pure depth) v) t) vs ts := by
        refine Spans.children hsub (Nat.le_of_succ_le_succ hheight) ?_ ?_
        · exact fun s w _ => ⟨_, w, .text s, rfl, .refl _ w, .text s, .text s⟩
        · intro j us c _ hle hc _ h w hw
          rw [runIn_walkChild _ (hw.kept (Nat.zero_le _) hc)]
          exact ih hle h w hw
      obtain ⟨as, w₁, us, hrun, hkeep, hnest, hcorrespond⟩ :=
        listsFrozen_mapM hparts (hw.trans hfrozen)
      have hlater : ∀ u, w₀.Retains 0 u → u.objects[l]? = some (.list vs) :=
        fun u hu => hu.kept (Nat.zero_le _) hlist
      have hall : (answersOf (walkChild (transformTo pure depth)) n.children : Operation _).runIn
          (w.withFrozenCopy n) = (.ok as, w₁) := by
        rw [hchildren, runIn_answersOf_list (hlater _ (hw.trans hfrozen)) fun bs u hu => ?_, hrun]
        rw [hrun] at hu
        cases hu
        exact hlater _ ((hw.trans hfrozen).trans hkeep)
      have hlast : w₁.Retains 0 (w₁.add (.list (.ref (w.objects.size + 1) :: as))) :=
        changesOnly_add
      refine ⟨.ref w₁.objects.size, _, .node (w.objects.size + 1) us, ?_,
        (hfrozen.trans hkeep).trans hlast, .node get_add_new (by rw [size_add]; omega) ?_,
        .node ?_ ?_⟩
      · rw [runIn_transformTo hn', runIn_bind_ok hfreeze, runIn_bind_ok hall]
        rfl
      · exact hnest.imp fun _ _ h => h.mono (fun _ hi => by rw [size_add]; omega)
          fun _ _ _ => hlast.kept (Nat.zero_le _)
      · have hcopy : w₀.FrozenTo (w.withFrozenCopy n) i (w.objects.size + 1) :=
          ⟨n, _, hn, get_withFrozenCopy_node, get_withFrozenCopy_list⟩
        exact (hcopy.retain hkeep).retain hlast
      · exact hcorrespond.imp fun _ _ h => h.mono fun _ _ hfrozen => hfrozen.retain hlast

/-- The list of a tree has frozen copies of the nodes of the tree, and its texts. -/
theorem exists_toList {p : Nat → Prop} {i : Nat} {ts : List Skeleton}
    (h : w.Spans p (.ref i) (.node i ts)) :
    ∃ a w' u, (toList (.ref i)).runIn w = (.ok a, w') ∧ w.Retains 0 w' ∧
      w'.Nests (fun _ => True) a u ∧ (Skeleton.node i ts).Corresponds (w.FrozenTo w') u := by
  have hheight : (Skeleton.node i ts).height ≤ w.depthBound := Nat.le_succ_of_le h.height_le
  obtain ⟨a, w', u, hrun, hkeep, hnests, hcorresponds⟩ :=
    listsFrozen_transformTo hheight h w (.refl _ w)
  refine ⟨a, w', u, ?_, hkeep, hnests.mono (fun _ _ => trivial) fun _ _ _ h => h, hcorresponds⟩
  cases h with
  | node hn _ _ _ _ _ _ => rw [runIn_toList hn, hrun]

end Operation

/-! ## Both walkers -/

section Walkers

open Operation World

variable {σ : Type} {fn : Value → Walking σ Value} {w : World} {kept : Nat → Prop} {s : σ}
  {i : Nat} {ts : List Skeleton}

/-- What both walkers come to, whether the calls of the visitor are written down or not. -/
structure BothWalk (fn : Value → Walking σ Value) (s : σ) (w : World) (i : Nat)
    (visits : List Visit) (s' : σ) (a : Except Fault Value) (w₁ : World) (b : Except Fault Value)
    (w₂ : World) : Prop where
  transform : (Operation.transform fn (.ref i)).runIn (s, w) = (a, (s', w₁))
  traverse : (Operation.traverse fn (.ref i)).runIn (s, w) = (b, (s', w₂))
  transformLogged : (Operation.transform (logged fn) (.ref i)).runIn ((s, []), w) =
    (a, ((s', visits), w₁))
  traverseLogged : (Operation.traverse (logged fn) (.ref i)).runIn ((s, []), w) =
    (b, ((s', visits), w₂))

/--
What both walkers build of the answers: these stand at the same places in a nested list and in a
tree, with the texts between them.  The worlds differ in the children of the answers and in the
lists that were gathered alone, and the list of the tree is the nested list with each answer frozen.
-/
def BuildSame (w : World) (t : Skeleton) (ks : List Nat) (a : Value) (w₁ : World) (b : Value)
    (w₂ : World) : Prop :=
  ∃ u : Skeleton, u.numbers = ks ∧ t.Corresponds (fun _ _ => True) u ∧
    w₁.Nests (w.objects.size ≤ ·) a u ∧ w₂.Spans (w.objects.size ≤ ·) b u ∧
    w₁.Alike (fun j => j ∈ u.numbers ∨ w₁.ListIn a u j) w₂ ∧
    ∃ c w₃ u', (toList b).runIn w₂ = (.ok c, w₃) ∧ w₂.Retains 0 w₃ ∧
      w₃.Nests (fun _ => True) c u' ∧ u.Corresponds (w₁.FrozenTo w₃) u'

/--
How the two walks of a tree end, after the same calls.  Either the last call of the visitor ends
both with its fault, or there is an answer for each node, and both build the same of the answers if
these are new.  Whatever is kept is the same after both walks.
-/
inductive WalksAgree (w : World) (kept : Nat → Prop) (fn : Value → Walking σ Value) (s : σ)
    (i : Nat) (ts : List Skeleton) : Prop
  | stopped {s' : σ} {visits : List Visit} {f : Fault} {w₁ w₂ : World}
      (called : w.Called w.objects.size w₁.objects.size (Skeleton.node i ts).numbers visits
        (.error f))
      (same : ∀ {j : Nat} {o : Object Value}, kept j → w.objects[j]? = some o →
        w₁.objects[j]? = some o ∧ w₂.objects[j]? = some o)
      (walks : BothWalk fn s w i visits s' (.error f) w₁ (.error f) w₂)
  | finished {s' : σ} {visits : List Visit} {ks : List Nat} {a b : Value} {w₁ w₂ : World}
      (called : w.Called w.objects.size w₁.objects.size (Skeleton.node i ts).numbers visits
        (.ok ks))
      (same : ∀ {j : Nat} {o : Object Value}, kept j → w.objects[j]? = some o →
        w₁.objects[j]? = some o ∧ w₂.objects[j]? = some o)
      (walks : BothWalk fn s w i visits s' (.ok a) w₁ (.ok b) w₂)
      (builds : Renews fn w kept s → BuildSame w (.node i ts) ks a w₁ b w₂)

/-- What the two walkers do, as walks that gather the answers. -/
theorem runIn_transform {τ : Type} (visit : Value → Walking τ Value) (v : Value) (p : τ × World) :
    (Operation.transform visit v).runIn p =
      (walkTo visit gatherList p.2.depthBound v).runIn p := by
  have hbound : (liftM Operation.depthBound : Walking τ _).runIn p = (.ok p.2.depthBound, p) := rfl
  rw [← transformTo_eq]
  exact Stateful.runIn_bind_ok hbound

@[inherit_doc runIn_transform]
theorem runIn_traverse_walk {τ : Type} (visit : Value → Walking τ Value) (v : Value)
    (p : τ × World) :
    (Operation.traverse visit v).runIn p =
      (walkTo visit gatherTree p.2.depthBound v).runIn p := by
  have hbound : (liftM Operation.depthBound : Walking τ _).runIn p = (.ok p.2.depthBound, p) := rfl
  rw [← traverseTo_eq]
  exact Stateful.runIn_bind_ok hbound

/-- Both walkers do the same whether the calls are written down or not. -/
theorem forgets_gatherList (first : Value) (rest : List Value) :
    Forgets (gatherList first rest : Walking (σ × List Visit) Value) (gatherList first rest) :=
  forgets_lift _

@[inherit_doc forgets_gatherList]
theorem forgets_gatherTree (root : Value) (walked : List Value) :
    Forgets (gatherTree root walked : Walking (σ × List Visit) Value) (gatherTree root walked) :=
  (forgets_lift _).bind fun _ => forgets_pure _

/-- What the walkers come to when the calls are written down, they come to without. -/
theorem bothWalk_of_logged {s' : σ} {visits : List Visit} {a b : Except Fault Value}
    {w₁ w₂ : World}
    (ha : (walkTo (logged fn) gatherList w.depthBound (.ref i)).runIn ((s, []), w) =
      (a, ((s', visits), w₁)))
    (hb : (walkTo (logged fn) gatherTree w.depthBound (.ref i)).runIn ((s, []), w) =
      (b, ((s', visits), w₂))) : BothWalk fn s w i visits s' a w₁ b w₂ where
  transform := by
    rw [runIn_transform]
    exact (forgets_walkTo fn forgets_gatherList _ _).runIn ha
  traverse := by
    rw [runIn_traverse_walk]
    exact (forgets_walkTo fn forgets_gatherTree _ _).runIn hb
  transformLogged := (runIn_transform _ _ _).trans ha
  traverseLogged := (runIn_traverse_walk _ _ _).trans hb

/-- At first, both walks are in the same world and nothing was made. -/
theorem reached_start (fn : Value → Walking σ Value) (w : World) (kept : Nat → Prop) (s : σ) :
    (⟨s, [], w, w, fun _ => False⟩ : Moment σ).Reached fn w kept s where
  alike := .refl w
  made _ h := h.elim
  kept _ ho := ho
  passes := .start

/-- The list of the tree that was built is that of the answers, each of them frozen. -/
theorem exists_toList_alike {made p : Nat → Prop} {b : Value} {t u : Skeleton} {w₁ w₂ : World}
    {r : Nat → Nat → Prop} (ht : ∃ i ts, t = .node i ts) (hshape : t.Corresponds r u)
    (hspans : w₂.Spans p b u) (halike : w₁.Alike made w₂) :
    ∃ c w₃ u', (toList b).runIn w₂ = (.ok c, w₃) ∧ w₂.Retains 0 w₃ ∧
      w₃.Nests (fun _ => True) c u' ∧ u.Corresponds (w₁.FrozenTo w₃) u' := by
  obtain ⟨i, ts, rfl⟩ := ht
  cases hshape with
  | node hij hsub =>
    cases hspans with
    | node hn hfreezable hp hchildren hlist hl hsub =>
      obtain ⟨c, w₃, u', hrun, hkeep, hnests, hcorresponds⟩ :=
        exists_toList (.node hn hfreezable hp hchildren hlist hl hsub)
      refine ⟨c, w₃, u', hrun, hkeep, hnests, hcorresponds.mono ?_⟩
      rintro j k ⟨n', l, hn', hk, hl⟩
      obtain ⟨n, hn, children, rfl⟩ := halike.node_left hn'
      exact ⟨n, l, hn, hk, hl⟩

/-- Where the answers are new, both walkers build the same of them. -/
theorem buildSame_of_answers {m : Moment σ} {ks : List Nat} {a b : Value}
    (hfn : Respects fn w kept s) (hnew : Renews fn w kept s) (hm : m.Reached fn w kept s)
    (h : Answers (Renews fn w kept s) ⟨s, [], w, w, fun _ => False⟩ (.node i ts) m ks a b) :
    BuildSame w (.node i ts) ks a m.left b m.right := by
  obtain ⟨u, rfl, hshape, hnests, hspans, honly⟩ := h.tree hnew
  have hle : ∀ j, Moment.Since ⟨s, [], w, w, fun _ => False⟩ m j → w.objects.size ≤ j :=
    fun j hj => hnew.le_made hfn hm.passes hj.1
  have hmade : m.made = fun j => j ∈ u.numbers ∨ m.left.ListIn a u j := by
    funext j
    refine propext ⟨fun hj => honly j ⟨hj, not_false⟩, ?_⟩
    rintro (hmem | hlist)
    · exact (hspans.of_mem_numbers hmem).1
    · exact (hlist _ hnests).1
  have hspans' : m.right.Spans (w.objects.size ≤ ·) b u :=
    (Leaves.refl _ _).spans hspans hle fun k c hk => hm.freezable_right hnew k c hk.1
  exact ⟨u, rfl, hshape, hnests.mono hle fun _ _ _ h => h, hspans', hmade ▸ hm.alike,
    exists_toList_alike ⟨i, ts, rfl⟩ hshape hspans' hm.alike⟩

/--
A visitor that respects a tree is called in the same way by both walkers, with a frozen copy of each
node in document order.  Both end with the fault of the first call that has one, or build the same
of its answers.
-/
theorem walkers_agree (htree : w.Spans kept (.ref i) (.node i ts))
    (hfn : Respects fn w kept s) : WalksAgree w kept fn s i ts := by
  have hheight : (Skeleton.node i ts).height ≤ w.depthBound := Nat.le_succ_of_le htree.height_le
  cases agrees_walkTo hfn hheight htree _ (reached_start fn w kept s) with
  | @stopped m' visits f fits later hvisits called hx hy =>
    rw [List.nil_append] at hvisits
    subst hvisits
    exact .stopped called (fun hk ho => ⟨fits.kept hk ho, fits.kept_right hk ho⟩)
      (bothWalk_of_logged hx hy)
  | @finished m' visits ks a b reached later hvisits called hx hy holds =>
    rw [List.nil_append] at hvisits
    subst hvisits
    exact .finished called (fun hk ho => ⟨reached.kept hk ho, reached.kept_right hk ho⟩)
      (bothWalk_of_logged hx hy) fun hnew => buildSame_of_answers hfn hnew reached holds

end Walkers

/-! ### A visitor that answers every other call with a new node -/

/-- What is answered to a node: at even times the node itself, at odd times a renamed copy. -/
def alternate (j : Nat) (n : Node Value) (p : Nat × World) : Except Fault Value × (Nat × World) :=
  if p.1 % 2 = 0 then (.ok (.ref j), (p.1 + 1, p.2))
  else (.ok (.ref p.2.objects.size), (p.1 + 1, p.2.add (.node { n with name := .text "x" })))

/-- A visitor that counts its calls and answers every other one with a renamed copy. -/
def alternating (v : Value) : Walking Nat Value :=
  ExceptT.mk fun p =>
    match v, p.2.look v with
    | .ref j, some (n, _) => alternate j n p
    | _, _ => (.error .unsuitable, p)

theorem runIn_alternating {p : Nat × World} {j : Nat} {n : Node Value}
    (hn : p.2.objects[j]? = some (.node n)) :
    (alternating (.ref j)).runIn p = alternate j n p := by
  have hlook : p.2.look (.ref j) = some (n, p.2.itemsHeld n.children) := by rw [World.look, hn]
  show (match Value.ref j, p.2.look (.ref j) with
    | .ref j, some (n, _) => alternate j n p
    | _, _ => ((.error .unsuitable, p) : Except Fault Value × (Nat × World))) = _
  rw [hlook]

section Alternating

open World

variable {w₀ w w' u : World} {kept made : Nat → Prop} {n : Node Value} {s₀ s s' : Nat}
  {r : Except Fault Value}

/-- A call answers with a new node that can be frozen, and neither changes nor sees any other. -/
theorem Turn.of_alternating (h : Turn alternating w₀ kept n s w r s' w') :
    ∃ k c, r = .ok (.ref k) ∧ w.objects.size < k ∧ (w.withFrozenCopy n).Retains 0 w' ∧
      w'.objects[k]? = some (.node c) ∧ c.Freezable ∧ ∀ {made} u, w.Alike made u → ∃ u',
        (alternating (.ref (w.objects.size + 1))).runIn (s, u.withFrozenCopy n) = (r, (s', u')) ∧
        w'.Alike made u' ∧ (u.withFrozenCopy n).Retains 0 u' := by
  have hrun := h.runs
  have hcopy := h.freezable.withChildren (.ref w.objects.size)
  rw [runIn_alternating get_withFrozenCopy_node, alternate] at hrun
  have hright : ∀ {made} u, w.Alike made u →
      (alternating (.ref (w.objects.size + 1))).runIn (s, u.withFrozenCopy n) =
        alternate (w.objects.size + 1) { n with children := .ref w.objects.size }
          (s, u.withFrozenCopy n) := by
    intro made u halike
    rw [halike.size_eq, runIn_alternating get_withFrozenCopy_node]
  by_cases heven : s % 2 = 0
  · rw [if_pos heven] at hrun
    cases hrun
    refine ⟨_, _, rfl, Nat.lt_succ_self _, .refl _ _, get_withFrozenCopy_node, hcopy, ?_⟩
    intro made u halike
    refine ⟨_, ?_, halike.withFrozenCopy n, .refl _ _⟩
    rw [hright u halike, alternate, if_pos heven]
  · rw [if_neg heven] at hrun
    cases hrun
    refine ⟨_, _, rfl, ?_, changesOnly_add, get_add_new,
      ⟨⟨hcopy.isVoid, hcopy.classes, hcopy.listeners, hcopy.attrs⟩, "x", rfl, by decide⟩, ?_⟩
    · rw [size_withFrozenCopy]
      omega
    · intro made u halike
      refine ⟨_, ?_, (halike.withFrozenCopy n).add _, changesOnly_add⟩
      rw [hright u halike, alternate, if_neg heven, (halike.withFrozenCopy n).size_eq]

/-- What was there before is there all the time, and the answers are new and can be frozen. -/
theorem passes_alternating (h : Passes alternating w₀ kept s₀ s w made) :
    w₀.Retains 0 w ∧ ∀ i, made i → i < w.objects.size ∧
      ∀ c, w.objects[i]? = some (.node c) → c.Freezable := by
  induction h with
  | start => exact ⟨.refl _ _, fun _ hi => hi.elim⟩
  | @visit s s' w w' made n a hbefore hturn ih =>
    obtain ⟨hkeep, hmade⟩ := ih
    obtain ⟨k, c, hk, hlt, hretains, hc, hfreezable, -⟩ := hturn.of_alternating
    cases hk
    have hretains : w.Retains 0 w' := (retains_withFrozenCopy w n).trans hretains
    refine ⟨hkeep.trans hretains, fun i hi => ?_⟩
    rcases hi with hi | hi
    · obtain ⟨hsize, hnode⟩ := hmade i hi
      refine ⟨Nat.lt_of_lt_of_le hsize hretains.size_le, fun c' hc' => hnode c' ?_⟩
      obtain ⟨o, ho⟩ := exists_of_lt_size hsize
      rw [ho, ← hc', hretains.kept (Nat.zero_le _) ho]
    · cases hi
      refine ⟨lt_size hc, fun c' hc' => ?_⟩
      rw [hc] at hc'
      cases hc'
      exact hfreezable
  | @gather s w made items hbefore ih =>
    obtain ⟨hkeep, hmade⟩ := ih
    refine ⟨hkeep.trans changesOnly_add, fun i hi => ?_⟩
    rw [size_add]
    rcases hi with hi | rfl
    · obtain ⟨hsize, hnode⟩ := hmade i hi
      refine ⟨Nat.lt_succ_of_lt hsize, fun c hc => hnode c ?_⟩
      rwa [get_add_old hsize] at hc
    · refine ⟨Nat.lt_succ_self _, fun c hc => ?_⟩
      rw [get_add_new] at hc
      cases hc

theorem respects_alternating (w₀ : World) (kept : Nat → Prop) (s₀ : Nat) :
    Respects alternating w₀ kept s₀ where
  answers hpasses hturn := by
    obtain ⟨k, c, hk, hlt, -, hc, -, -⟩ := hturn.of_alternating
    have hsize := (passes_alternating hpasses).1.size_le
    exact ⟨k, c, Except.ok.inj hk, hc, fun hold => by omega⟩
  keeps {_ _ w w' _ n _ _ _} hpasses hturn _ ho := by
    obtain ⟨-, -, -, -, hretains, -, -, -⟩ := hturn.of_alternating
    have hkeep : w₀.Retains 0 w' :=
      ((passes_alternating hpasses).1.trans (retains_withFrozenCopy w n)).trans hretains
    exact hkeep.kept (Nat.zero_le _) ho
  leaves _ hturn := by
    obtain ⟨-, -, -, -, hretains, -, -, -⟩ := hturn.of_alternating
    exact hretains.leaves
  alike {_ _ _ _ u _ _ _} _ hturn halike := by
    obtain ⟨k, c, rfl, -, -, hc, -, hright⟩ := hturn.of_alternating
    obtain ⟨u', hrun, halike', hretains⟩ := hright u halike
    refine ⟨u', hrun, halike'.grow (fun _ => .inl) ?_, hretains.leaves⟩
    rintro i (hi | hi)
    · exact .inl hi
    · cases hi
      exact .inr ⟨c, hc⟩

theorem renews_alternating (w₀ : World) (kept : Nat → Prop) (s₀ : Nat) :
    Renews alternating w₀ kept s₀ where
  answers {s s' w w' made n k} hpasses hturn := by
    obtain ⟨k', c, hk, hlt, -, -, -, -⟩ := hturn.of_alternating
    cases hk
    obtain ⟨hkeep, hmade⟩ := passes_alternating hpasses
    have hsize := hkeep.size_le
    exact ⟨by omega, fun hi => Nat.lt_asymm hlt (hmade _ hi).1⟩
  freezable hpasses hk hc := ((passes_alternating hpasses).2 _ hk).2 _ hc

end Alternating

/-- A node with a name and with some of the first objects for its collections. -/
def sampleNode (name : String) (children : Value) : Node Value where
  name := .text name
  isVoid := .bool false
  id := .none
  classes := .ref 0
  style := .none
  listeners := .ref 1
  attrs := .ref 1
  content := .text ""
  children := children

/-- A division with a text and a paragraph for children. -/
def World.withParagraph : World :=
  .ofObjects #[.list [], .map [], .list [], .node (sampleNode "p" (.ref 2)),
    .list [.text "a", .ref 3], .node (sampleNode "div" (.ref 4))]

theorem World.spans_withParagraph : World.withParagraph.Spans (fun _ => True) (.ref 5)
    (.node 5 [.text "a", .node 3 []]) := by
  have hfreezable : ∀ name children, name ≠ "" → (sampleNode name children).Freezable :=
    fun name _ hname => ⟨⟨nofun, nofun, nofun, nofun⟩, name, rfl, hname⟩
  have hp : World.withParagraph.Spans (fun _ => True) (.ref 3) (.node 3 []) :=
    .node (n := sampleNode "p" (.ref 2)) rfl (hfreezable _ _ (by decide)) trivial rfl rfl trivial
      .nil
  exact .node (n := sampleNode "div" (.ref 4)) rfl (hfreezable _ _ (by decide)) trivial rfl rfl
    trivial (.cons (.text "a") (.cons hp .nil))

/-- The division is handed back and the paragraph is renamed. -/
theorem walkers_agree_alternating :
    WalksAgree World.withParagraph (fun _ => True) alternating 0 5 [.text "a", .node 3 []] ∧
      Renews alternating World.withParagraph (fun _ => True) 0 ∧
      ((Operation.transform (logged alternating) (.ref 5)).runIn ((0, []), .withParagraph)).1 =
        .ok (.ref 12) :=
  ⟨walkers_agree World.spans_withParagraph (respects_alternating _ _ 0),
    renews_alternating _ _ 0, by decide +kernel⟩

/-! ### Visitors that tell the walks apart -/

/-- A visitor that fails as soon as a node that it gave back has children. -/
def peeking (v : Value) : Walking (List Value) Value :=
  ExceptT.mk fun p =>
    if p.1.any fun e => (p.2.look e).any fun seen => !seen.2.isEmpty then (.error .unsuitable, p)
    else (.ok v, (v :: p.1, p.2))

/-- A visitor that adds a text to the children of all nodes that it gave back. -/
def adding (v : Value) : Walking (List Value) Value :=
  ExceptT.mk fun p =>
    let r := (p.1.forM fun e => do
      Operation.append (← Operation.member e "children") (.text "x") : Operation Unit).runIn p.2
    (r.1.map fun _ => v, (v :: p.1, r.2))

/-- A visitor that counts its calls, and at the second one answers with something else. -/
def handing (e v : Value) : Walking Nat Value :=
  ExceptT.mk fun p => (.ok (if p.1 = 1 then e else v), (p.1 + 1, p.2))

/-- The number of items in the list for the first child, in a nested list. -/
def firstCount (a : Value) : Operation Nat := do
  Visitor.count (← Operation.itemOf a (.int 1))

/-- A section with a paragraph, then a quotation with a number for a class. -/
def World.withQuotation : World :=
  .ofObjects #[.list [], .map [], .list [], .node (sampleNode "p" (.ref 2)),
    .list [.ref 3], .node (sampleNode "section" (.ref 4)), .list [.int 1], .list [],
    .node { sampleNode "q" (.ref 7) with classes := .ref 6 },
    .list [.ref 5, .ref 8], .node (sampleNode "div" (.ref 9))]

/-- A paragraph of which the classes are missing. -/
def World.withoutClasses : World :=
  .ofObjects #[.list [], .map [], .list [],
    .node { sampleNode "p" (.ref 2) with classes := .none }]

/--
Where a visitor answers with texts, a traversal fails to give the first of them children, and a
transformation goes on to the call that fails.  Where it answers with a node of the tree that is not
visited yet, a traversal gives this node children, and visits them.  A visitor can tell the walks
apart by the children of the nodes that it gave back, and what it adds to these stays in the tree
alone.  Classes that are missing are not missing in a frozen copy.
-/
theorem walks_part :
    ((Operation.transform (Visitor.visit .render) (.ref 10)).runIn .withQuotation).1 =
        .error .unsuitable ∧
      ((Operation.traverse (Visitor.visit .render) (.ref 10)).runIn .withQuotation).1 =
        .error .missingMember ∧
      ((Operation.transform (handing (.ref 8)) (.ref 10)).runIn (0, .withQuotation)).2.1 = 4 ∧
      ((Operation.traverse (handing (.ref 8)) (.ref 10)).runIn (0, .withQuotation)).2.1 = 5 ∧
      ((Operation.transform peeking (.ref 10)).runIn ([], .withQuotation)).1 = .ok (.ref 22) ∧
      ((Operation.traverse peeking (.ref 10)).runIn ([], .withQuotation)).1 = .error .unsuitable ∧
      ((do firstCount (← Operation.transform adding (.ref 10)) : Walking _ _).runIn
        ([], .withQuotation)).1 = .ok 2 ∧
      ((do firstCount (← Operation.toList (← Operation.traverse adding (.ref 10))) :
        Walking _ _).runIn ([], .withQuotation)).1 = .ok 3 ∧
      ((Operation.transform (logged (pure : Value → Walking Unit Value)) (.ref 3)).runIn
        (((), []), .withoutClasses)).2.1.2.map (fun v => v.seen.map (·.1.classes)) =
          [some (.ref 4)] := by
  refine ⟨?_, ?_, ?_, ?_, ?_, ?_, ?_, ?_, ?_⟩ <;> decide +kernel

end Markup
