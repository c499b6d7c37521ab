import Markup.Proofs.Node.Moments

/-!
# The two walkers in lockstep

`Agrees` is said of a part of the one walk and the same part of the other one: the visitor is called
in the same way in both, and both end with the fault of the last call or both with answers that
correspond (`Answers`).  It is passed on from part to part, so that a walk that gathers lists and
one that gathers a tree agree on whatever a world spans (`agrees_walkTo`).
-/

namespace Markup

open Operation World

variable {σ α β : Type} {fn : Value → Walking σ Value} {w₀ : World} {kept : Nat → Prop} {s₀ : σ}
  {anew : Prop} {m m₁ m' : Moment σ}

/-! ## Parts of a walk -/

/--
From a moment on, two parts of a walk call the visitor with the nodes of these numbers in order, up
to the first answer that is a fault.  Both end with this fault, or with answers of which something
is said.
-/
inductive Agrees (fn : Value → Walking σ Value) (w₀ : World) (kept : Nat → Prop) (s₀ : σ)
    (is : List Nat) (x : Walking (σ × List Visit) α) (y : Walking (σ × List Visit) β)
    (m : Moment σ) (post : Moment σ → List Nat → α → β → Prop) : Prop
  | stopped {m' : Moment σ} {vs : List Visit} {f : Fault} (fits : m'.Fits w₀ kept)
      (later : m.Later (Renews fn w₀ kept s₀) m') (visits : m'.visits = m.visits ++ vs)
      (called : w₀.Called m.left.objects.size m'.left.objects.size is vs (.error f))
      (hx : x.runIn m.first = (.error f, m'.first))
      (hy : y.runIn m.second = (.error f, m'.second))
  | finished {m' : Moment σ} {vs : List Visit} {ks : List Nat} {a : α} {b : β}
      (reached : m'.Reached fn w₀ kept s₀) (later : m.Later (Renews fn w₀ kept s₀) m')
      (visits : m'.visits = m.visits ++ vs)
      (called : w₀.Called m.left.objects.size m'.left.objects.size is vs (.ok ks))
      (hx : x.runIn m.first = (.ok a, m'.first)) (hy : y.runIn m.second = (.ok b, m'.second))
      (holds : post m' ks a b)

/-- Parts that run in the same way agree on the same. -/
theorem Agrees.congr {is : List Nat} {x x' : Walking (σ × List Visit) α}
    {y y' : Walking (σ × List Visit) β} {post : Moment σ → List Nat → α → β → Prop}
    (h : Agrees fn w₀ kept s₀ is x y m post) (hx : x'.runIn m.first = x.runIn m.first)
    (hy : y'.runIn m.second = y.runIn m.second) : Agrees fn w₀ kept s₀ is x' y' m post := by
  cases h with
  | stopped fits later visits called hx' hy' =>
    exact .stopped fits later visits called (hx.trans hx') (hy.trans hy')
  | finished reached later visits called hx' hy' holds =>
    exact .finished reached later visits called (hx.trans hx') (hy.trans hy') holds

/--
What there is of a tree after both walks, if the answers are new: a list of them in the one and a
tree of them in the other, with the texts in their places.  All of it was made since a moment, and
nothing else that may be different was.
-/
structure Answers (anew : Prop) (m : Moment σ) (t : Skeleton) (m' : Moment σ) (ks : List Nat)
    (a b : Value) : Prop where
  tree : anew → ∃ u, u.numbers = ks ∧ t.Corresponds (fun _ _ => True) u ∧
    m'.left.Nests (m.Since m') a u ∧ m'.right.Spans (m.Since m') b u ∧
    ∀ i, m.Since m' i → i ∈ u.numbers ∨ m'.left.ListIn a u i

/-- What there is of some trees after both walks. -/
structure AnswersEach (anew : Prop) (m : Moment σ) (ts : List Skeleton) (m' : Moment σ)
    (ks : List Nat) (as bs : List Value) : Prop where
  trees : anew → ∃ us, Skeleton.numbersOf us = ks ∧
    List.Forall₂ (Skeleton.Corresponds fun _ _ => True) ts us ∧
    List.Forall₂ (m'.left.Nests (m.Since m')) as us ∧
    List.Forall₂ (m'.right.Spans (m.Since m')) bs us ∧
    ∀ i, m.Since m' i → i ∈ Skeleton.numbersOf us ∨
      ∀ p : Nat → Prop, List.Forall₂ (m'.left.Nests p) as us → p i

theorem Moment.Later.since_mono (h : m₁.Later anew m') {i : Nat} (hi : m.Since m₁ i) :
    m.Since m' i :=
  ⟨h.made i hi.1, hi.2⟩

/-- What was made since a later moment was made since an earlier one. -/
theorem Moment.Later.since_earlier (h : m.Later anew m₁) {i : Nat} (hi : m₁.Since m' i) :
    m.Since m' i :=
  ⟨hi.1, fun hmade => hi.2 (h.made i hmade)⟩

/-- The lists that were made are there later on. -/
theorem Moment.Later.since_list (h : m₁.Later anew m') {i : Nat} {vs : List Value}
    (hi : m.Since m₁ i) (hlist : m₁.left.objects[i]? = some (.list vs)) :
    m'.left.objects[i]? = some (.list vs) :=
  h.left.list hi.1 hlist

/-- The answers for one tree and then for others are the answers for all of them. -/
theorem AnswersEach.cons {t : Skeleton} {ts : List Skeleton} {ks ls : List Nat} {a b : Value}
    {as bs : List Value} (hfirst : m.Later anew m₁) (hlater : m₁.Later anew m')
    (hfreezable : anew → ∀ k c, m'.made k → m'.right.objects[k]? = some (.node c) → c.Freezable)
    (h : Answers anew m t m₁ ks a b) (hs : AnswersEach anew m₁ ts m' ls as bs) :
    AnswersEach anew m (t :: ts) m' (ks ++ ls) (a :: as) (b :: bs) where
  trees hnew := by
    obtain ⟨u, rfl, hcorresponds, hnests, hspans, honly⟩ := h.tree hnew
    obtain ⟨us, rfl, hcorrespond, hnest, hspan, honlyEach⟩ := hs.trees hnew
    refine ⟨u :: us, rfl, .cons hcorresponds hcorrespond, .cons ?_ ?_, .cons ?_ ?_, ?_⟩
    · exact hnests.mono (fun _ => hlater.since_mono) fun _ _ => hlater.since_list
    · exact hnest.imp fun _ _ h => h.mono (fun _ => hfirst.since_earlier) fun _ _ _ h => h
    · exact ((hlater.right hnew).mono fun _ hi => hi.1).spans hspans (fun _ => hlater.since_mono)
        fun i n hi => hfreezable hnew i n (hlater.made i hi.1)
    · exact hspan.imp fun _ _ h => (Leaves.refl _ _).spans h (fun _ => hfirst.since_earlier)
        fun i n hi => hfreezable hnew i n hi.1
    · intro i hi
      rw [Skeleton.numbersOf, List.mem_append]
      by_cases hmade : m₁.made i
      · rcases honly i ⟨hmade, hi.2⟩ with hmem | hlist
        · exact .inl (.inl hmem)
        · refine .inr fun p hp => ?_
          rw [List.forall₂_cons] at hp
          exact (hlist _ (hnests.both hp.1 fun _ _ => hlater.since_list)).2
      · rcases honlyEach i ⟨hi.1, hmade⟩ with hmem | hlist
        · exact .inl (.inr hmem)
        · refine .inr fun p hp => hlist p ?_
          rw [List.forall₂_cons] at hp
          exact hp.2

/-- From whatever moment on, two parts of a walk agree on a tree. -/
def AgreesOn (fn : Value → Walking σ Value) (w₀ : World) (kept : Nat → Prop) (s₀ : σ)
    (t : Skeleton) (x y : Walking (σ × List Visit) Value) : Prop :=
  ∀ m : Moment σ, m.Reached fn w₀ kept s₀ →
    Agrees fn w₀ kept s₀ t.numbers x y m (Answers (Renews fn w₀ kept s₀) m t)

/-! ## Going through the children -/

section Children

variable {f g : Value → Walking (σ × List Visit) Value} {vs : List Value} {ts : List Skeleton}

/-- Where the walks agree on each of some values, they agree on them in a row. -/
theorem agrees_mapM (h : List.Forall₂ (fun v t => AgreesOn fn w₀ kept s₀ t (f v) (g v)) vs ts)
    (hm : m.Reached fn w₀ kept s₀) :
    Agrees fn w₀ kept s₀ (Skeleton.numbersOf ts) (vs.mapM f) (vs.mapM g) m
      (AnswersEach (Renews fn w₀ kept s₀) m ts) := by
  induction h generalizing m with
  | nil =>
    exact .finished hm (.refl m) (List.append_nil _).symm (.done (Nat.le_refl _)) rfl rfl
      ⟨fun _ => ⟨[], rfl, .nil, .nil, .nil, fun _ hi => absurd hi.1 hi.2⟩⟩
  | @cons v t vs ts hv _ ih =>
    rw [List.mapM_cons, List.mapM_cons, Skeleton.numbersOf]
    cases hv m hm with
    | stopped fits later visits called hx hy =>
      exact .stopped fits later visits (called.append_error _) (Stateful.runIn_bind_error hx)
        (Stateful.runIn_bind_error hy)
    | @finished m₁ ws ks a b reached later visits called hx hy holds =>
      have hws : ∀ {m' : Moment σ} {us : List Visit}, m'.visits = m₁.visits ++ us →
          m'.visits = m.visits ++ (ws ++ us) := by
        intro m' us hus
        rw [hus, visits, List.append_assoc]
      cases ih reached with
      | stopped fits later' visits' called' hx' hy' =>
        refine .stopped fits (later.trans later') (hws visits') (called.append called') ?_ ?_
        · rw [Stateful.runIn_bind_ok hx]
          exact Stateful.runIn_bind_error hx'
        · rw [Stateful.runIn_bind_ok hy]
          exact Stateful.runIn_bind_error hy'
      | finished reached' later' visits' called' hx' hy' holds' =>
        refine .finished reached' (later.trans later') (hws visits') (called.append called') ?_ ?_
          (.cons later later' reached'.freezable_right holds holds')
        · rw [Stateful.runIn_bind_ok hx, Stateful.runIn_bind_ok hx']
          rfl
        · rw [Stateful.runIn_bind_ok hy, Stateful.runIn_bind_ok hy']
          rfl

/-- Children are gone through once if their list is the same afterwards. -/
theorem runIn_answersOf_kept {τ : Type} {f : Value → Walking τ Value} {l : Nat} {vs : List Value}
    {p : τ × World} (h : p.2.objects[l]? = some (.list vs))
    (hafter : ∀ bs q, (vs.mapM f).runIn p = (.ok bs, q) → q.2.objects[l]? = some (.list vs)) :
    (answersOf f (.ref l)).runIn p = (vs.mapM f).runIn p := by
  have hitems : ∀ q : τ × World, q.2.objects[l]? = some (.list vs) →
      (liftM (itemsOf (.ref l)) : Walking τ _).runIn q = (.ok vs, q) :=
    fun q hq => Walking.runIn_lift (runIn_itemsOf hq) q.1
  have hbound : (liftM Operation.depthBound : Walking τ _).runIn p = (.ok p.2.depthBound, p) := rfl
  rw [answersOf.eq_def]
  refine (Stateful.runIn_bind_ok hbound).trans ?_
  exact Stateful.runIn_answersFrom (hitems p h) (fun bs q hq => hitems q (hafter bs q hq)) _

/-- Where the walks agree on the children of a node one by one, they agree on all of them. -/
theorem agrees_answersOf {l : Nat}
    (h : List.Forall₂ (fun v t => AgreesOn fn w₀ kept s₀ t (f v) (g v)) vs ts)
    (hm : m.Reached fn w₀ kept s₀) (hlist : w₀.objects[l]? = some (.list vs)) (hl : kept l) :
    Agrees fn w₀ kept s₀ (Skeleton.numbersOf ts) (answersOf f (.ref l)) (answersOf g (.ref l)) m
      (AnswersEach (Renews fn w₀ kept s₀) m ts) := by
  have hagrees := agrees_mapM h hm
  refine hagrees.congr (runIn_answersOf_kept (hm.kept hl hlist) fun bs q hq => ?_)
    (runIn_answersOf_kept (hm.kept_right hl hlist) fun bs q hq => ?_)
  · cases hagrees with
    | stopped _ _ _ _ hx _ =>
      rw [hq] at hx
      cases hx
    | finished reached _ _ _ hx _ _ =>
      rw [hq] at hx
      cases hx
      exact reached.kept hl hlist
  · cases hagrees with
    | stopped _ _ _ _ _ hy =>
      rw [hq] at hy
      cases hy
    | finished reached _ _ _ _ hy _ =>
      rw [hq] at hy
      cases hy
      exact reached.kept_right hl hlist

end Children

/-! ## Walking a node -/

theorem walkTo_succ {τ : Type} (visit : Value → Walking τ Value)
    (gather : Value → List Value → Walking τ Value) (depth : Nat) (v : Value) :
    walkTo visit gather (depth + 1) v =
      (((liftM (askFrozen v) : Walking τ Value) >>= visit) >>= fun first => (do
        let children ← member v "children"
        let rest ← answersOf (walkChild (walkTo visit gather depth)) children
        gather first rest : Walking τ Value)) := by
  rw [walkTo, bind_assoc]

/-- A child that is a node is walked. -/
theorem runIn_walkChild_walking {τ : Type} (walk : Value → Walking τ Value) {i : Nat}
    {n : Node Value} {p : τ × World} (hn : p.2.objects[i]? = some (.node n)) :
    (walkChild walk (.ref i)).runIn p = (walk (.ref i)).runIn p := by
  obtain ⟨b, hb, hnode⟩ := runIn_isNode (.ref i) p.2
  rw [hnode.mpr ⟨i, n, rfl, hn⟩] at hb
  rw [walkChild]
  exact Stateful.runIn_bind_ok (Walking.runIn_lift hb p.1)

/-- The children of a node are those that it has in the world. -/
theorem runIn_member_children {τ : Type} {i : Nat} {n : Node Value} {p : τ × World}
    (hn : p.2.objects[i]? = some (.node n)) :
    (liftM (member (.ref i) "children") : Walking τ Value).runIn p = (.ok n.children, p) :=
  Walking.runIn_lift (runIn_member hn rfl rfl) p.1

/-- The answers for a node and for its children, put together. -/
theorem answers_gather {i k : Nat} {c' : Node Value} {ts : List Skeleton} {ks : List Nat}
    {rest walked : List Value} (hlater : m.Later anew m₁) (hlater' : m₁.Later anew m')
    (hfits : m'.Fits w₀ kept) (hk : m₁.made k) (hknew : anew → ¬ m.made k)
    (honly : ∀ j, m.Since m₁ j → j = k) (hc' : m'.right.objects[k]? = some (.node c'))
    (hfreezable : anew → ∀ k c, m'.made k → m'.right.objects[k]? = some (.node c) → c.Freezable)
    (h : AnswersEach anew m₁ ts m' ks rest walked) :
    Answers anew m (.node i ts) (m'.gather k c' rest walked) (k :: ks)
      (.ref m'.left.objects.size) (.ref k) where
  tree hnew := by
    obtain ⟨us, rfl, hcorrespond, hnest, hspan, honlyEach⟩ := h.trees hnew
    have hsize := hfits.alike.size_eq
    have hlist : m.Since (m'.gather k c' rest walked) m'.left.objects.size := by
      refine ⟨.inr rfl, fun hmade => ?_⟩
      exact Nat.lt_irrefl _ (hfits.made _ (hlater'.made _ (hlater.made _ hmade))).2
    have hold : ∀ j, m₁.Since m' j → m.Since (m'.gather k c' rest walked) j := fun j hj =>
      ⟨.inl hj.1, fun hmade => hj.2 (hlater.made j hmade)⟩
    have hne : m'.right.objects.size ≠ k := Nat.ne_of_gt (lt_size hc')
    have hright : m'.right.Leaves (m₁.Since m') (m'.gather k c' rest walked).right :=
      (Retains.leaves changesOnly_add).trans (leaves_replace (fun hsince => hsince.2 hk) _)
    refine ⟨.node k us, rfl, .node trivial hcorrespond, ?_, ?_, ?_⟩
    · exact .node get_add_new hlist (hnest.imp fun _ _ h => h.mono hold fun _ _ _ => get_add)
    · refine .node (get_replace_self (lt_size (get_add hc')))
        ((hfreezable hnew k c' (hlater'.made k hk) hc').withChildren _)
        ⟨.inl (hlater'.made k hk), hknew hnew⟩ rfl ?_ (hsize ▸ hlist)
        (hspan.imp fun _ _ h => hright.spans h hold fun j c hj hc => ?_)
      · rw [Moment.gather, get_replace_ne hne, get_add_new]
      · have hjk : j ≠ k := fun heq => hj.2 (heq ▸ hk)
        have hlt : j < m'.right.objects.size := hsize ▸ (hfits.made j hj.1).2
        rw [Moment.gather, get_replace_ne hjk, get_add_old hlt] at hc
        exact hfreezable hnew j c hj.1 hc
    · rintro j ⟨hmade | rfl, hnot⟩
      · by_cases hmade₁ : m₁.made j
        · exact .inl (honly j ⟨hmade₁, hnot⟩ ▸ List.mem_cons_self)
        · rcases honlyEach j ⟨hmade, hmade₁⟩ with hmem | hin
          · exact .inl (List.mem_cons_of_mem k hmem)
          · refine .inr fun p hp => ?_
            cases hp with
            | node hlist' hl hsub =>
              obtain ⟨-, rfl⟩ := List.cons.inj (Object.list.inj (Option.some.inj
                (get_add_new.symm.trans hlist')))
              exact (hin _ (Nests.both_each hnest hsub fun _ _ _ => get_add)).2
      · refine .inr fun p hp => ?_
        cases hp with
        | node hlist' hl hsub => exact hl

/-- The lists are gathered in the one world, and the tree in the other one. -/
theorem runIn_gatherList (k : Nat) (rest walked : List Value) (c' : Node Value) :
    (gatherList (.ref k) rest : Walking (σ × List Visit) Value).runIn m.first =
      (.ok (.ref m.left.objects.size), (m.gather k c' rest walked).first) :=
  Walking.runIn_lift (runIn_make' _ _) _

theorem runIn_gatherTree {k : Nat} {c' : Node Value}
    (hc' : m.right.objects[k]? = some (.node c')) (rest walked : List Value) :
    (gatherTree (.ref k) walked : Walking (σ × List Visit) Value).runIn m.second =
      (.ok (.ref k), (m.gather k c' rest walked).second) :=
  Stateful.runIn_bind_ok (Walking.runIn_lift (runIn_replaceChildren hc' walked) _)

/-- The two walks agree on a node if they agree on its children. -/
theorem agrees_node {depth i l : Nat} {n : Node Value} {vs : List Value} {ts : List Skeleton}
    (hfn : Respects fn w₀ kept s₀) (hn : w₀.objects[i]? = some (.node n))
    (hfreezable : n.Freezable) (hi : kept i) (hchildren : n.children = .ref l)
    (hlist : w₀.objects[l]? = some (.list vs)) (hl : kept l)
    (hsub : List.Forall₂ (fun v t => AgreesOn fn w₀ kept s₀ t
      (walkChild (walkTo (logged fn) gatherList depth) v)
      (walkChild (walkTo (logged fn) gatherTree depth) v)) vs ts) :
    AgreesOn fn w₀ kept s₀ (.node i ts) (walkTo (logged fn) gatherList (depth + 1) (.ref i))
      (walkTo (logged fn) gatherTree (depth + 1) (.ref i)) := by
  intro m hm
  rw [walkTo_succ, walkTo_succ, Skeleton.numbers]
  obtain ⟨m₁, v, hfits, hlater, hvisits, hshown, hx, hy, hanswer⟩ :=
    hfn.visit hm hn hfreezable hi
  cases hv : v.answer with
  | error f =>
    rw [hv] at hx hy
    exact .stopped hfits hlater hvisits (.stop hshown hv) (Stateful.runIn_bind_error hx)
      (Stateful.runIn_bind_error hy)
  | ok a =>
    obtain ⟨hreached, k, c, rfl, hk, hc, honly, hnew⟩ := hanswer a hv
    rw [hv] at hx hy
    -- after the visit, both walks go through the same children
    have hread : ∀ p : (σ × List Visit) × World, p.2.objects[i]? = some (.node n) →
        (liftM (member (.ref i) "children") : Walking (σ × List Visit) Value).runIn p =
          (.ok (.ref l), p) := fun p hp => hchildren ▸ runIn_member_children hp
    have hleft := hread m₁.first (hfits.kept hi hn)
    have hright := hread m₁.second (hfits.kept_right hi hn)
    cases agrees_answersOf hsub hreached hlist hl with
    | @stopped m' us f fits later visits called hx' hy' =>
      refine .stopped fits (hlater.trans later) ?_ (.next hshown hv called) ?_ ?_
      · rw [visits, hvisits, List.append_assoc]
        rfl
      · rw [Stateful.runIn_bind_ok hx, Stateful.runIn_bind_ok hleft]
        exact Stateful.runIn_bind_error hx'
      · rw [Stateful.runIn_bind_ok hy, Stateful.runIn_bind_ok hright]
        exact Stateful.runIn_bind_error hy'
    | @finished m' us ks rest walked reached later visits called hx' hy' holds =>
      obtain ⟨c₁, hthere, -⟩ := later.left.node hk hc
      obtain ⟨children, hthere'⟩ := reached.alike.node hthere
      have hcalled := Called.next hshown hv called
      refine .finished (reached.gather hfn (later.made k hk) hthere hthere' rest walked)
        ((hlater.trans later).gather hnew) ?_ (hcalled.mono (Nat.le_refl _) ?_) ?_ ?_
        (answers_gather hlater later reached.toFits hk hnew honly hthere'
          reached.freezable_right holds)
      · show m'.visits = _
        rw [visits, hvisits, List.append_assoc]
        rfl
      · rw [Moment.gather, size_add]
        exact Nat.le_succ _
      · rw [Stateful.runIn_bind_ok hx, Stateful.runIn_bind_ok hleft, Stateful.runIn_bind_ok hx']
        exact runIn_gatherList k rest walked _
      · rw [Stateful.runIn_bind_ok hy, Stateful.runIn_bind_ok hright, Stateful.runIn_bind_ok hy']
        exact runIn_gatherTree hthere' rest walked

/-- A text is left as it is by both walks. -/
theorem agrees_text (f g : Value → Walking (σ × List Visit) Value) (s : String) :
    AgreesOn fn w₀ kept s₀ (.text s) (walkChild f (.text s)) (walkChild g (.text s)) :=
  fun m hm => .finished hm (.refl m) (List.append_nil _).symm (.done (Nat.le_refl _)) rfl rfl
    ⟨fun _ => ⟨.text s, rfl, .text s, .text s, .text s, fun _ hi => absurd hi.1 hi.2⟩⟩

/-- A child that is a node is walked by both walks. -/
theorem AgreesOn.part {f g : Value → Walking (σ × List Visit) Value} {t : Skeleton} {i : Nat}
    {n : Node Value} (h : AgreesOn fn w₀ kept s₀ t (f (.ref i)) (g (.ref i)))
    (hn : w₀.objects[i]? = some (.node n)) (hi : kept i) :
    AgreesOn fn w₀ kept s₀ t (walkChild f (.ref i)) (walkChild g (.ref i)) :=
  fun m hm => (h m hm).congr (runIn_walkChild_walking f (hm.kept hi hn))
    (runIn_walkChild_walking g (hm.kept_right hi hn))

/-- The two walks agree on every tree that is no higher than they go. -/
theorem agrees_walkTo (hfn : Respects fn w₀ kept s₀) {depth i : Nat}
    {ts : List Skeleton} (hheight : (Skeleton.node i ts).height ≤ depth)
    (h : w₀.Spans kept (.ref i) (.node i ts)) :
    AgreesOn fn w₀ kept s₀ (.node i ts) (walkTo (logged fn) gatherList depth (.ref i))
      (walkTo (logged fn) gatherTree depth (.ref i)) := by
  induction depth generalizing i ts with
  | zero =>
    rw [Skeleton.height] at hheight
    omega
  | succ depth ih =>
    rw [Skeleton.height] at hheight
    cases h with
    | node hn hfreezable hi hchildren hlist hl hsub =>
      refine agrees_node hfn hn hfreezable hi hchildren hlist hl ?_
      exact Spans.children hsub (Nat.le_of_succ_le_succ hheight) (fun s => agrees_text _ _ s)
        fun j us c _ hle hc hj h => (ih hle h).part hc hj

end Markup
