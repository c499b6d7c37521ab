import Markup.Proofs.Node.Lockstep
import Markup.Proofs.Node.Stock

/-!
# A walk of well-made nodes

A walk of a whole tree is a run of steps, as long as the visitor does what a run can do and answers
with nodes that are followed (`Stock.Admits`): each node is frozen, visited, and the answer gets
other children.  What the visitor relies on may be anything that it keeps and that the walk keeps.

The walk is followed from one `Stage` to the next.  `Stage.Leads` says of a part of it that it ends
at a later stage, and what holds of its answer there; facts that last are carried over to the parts
that come after (`Stage.Leads.bind`).
-/

namespace Markup

open Operation

namespace Stock

/-! ## What lasts -/

/-- The value is a node that is followed. -/
def Follows (s : Stock) (v : Value) : Prop := ∃ i tag, v = .ref i ∧ (i, tag) ∈ s.nodes

/-- The visitor was called with a node that is followed, and answered with one if it did. -/
def Approves (s : Stock) (v : Visit) : Prop :=
  s.Follows v.argument ∧ ∀ a, v.answer = .ok a → s.Follows a

/-- The value is a whole tree that is followed. -/
def Grew (s : Stock) (v : Value) : Prop := s.Follows v ∧ s.Whole v

variable {s s' : Stock} {p p' : Plan} {v : Value}

theorem Follows.later (h : s.Follows v) (hlater : Advances s s' p p') : s'.Follows v := by
  obtain ⟨i, tag, hv, hi⟩ := h
  exact ⟨i, tag, hv, hlater.nodes _ hi⟩

theorem Approves.later {visit : Visit} (h : s.Approves visit) (hlater : Advances s s' p p') :
    s'.Approves visit :=
  ⟨h.1.later hlater, fun a ha => (h.2 a ha).later hlater⟩

theorem Grew.later (h : s.Grew v) (hlater : Advances s s' p p') : s'.Grew v := by
  refine ⟨h.1.later hlater, ?_⟩
  obtain ⟨⟨i, tag, rfl, hi⟩, hwhole⟩ := h
  exact hlater.whole i tag hi hwhole

theorem MayHold.later (h : s.MayHold v) (hlater : Advances s s' p p') : s'.MayHold v where
  has := h.has.mono hlater.kinds.size_le
  text hprimitive := by
    by_contra hnot
    exact hlater.kinds.not_isPrimitive h.has (fun hp => hnot (h.text hp)) hprimitive
  whole := by
    by_cases hnode : ∃ i n, v = .ref i ∧ s.world.objects[i]? = some (.node n)
    · obtain ⟨i, n, rfl, hn⟩ := hnode
      obtain ⟨tag, hi⟩ := h.whole.exists_tag hn
      exact hlater.whole i tag hi h.whole
    · refine whole_of_not_node fun i m hv hm => hnode ?_
      obtain ⟨n, hn⟩ := hlater.kinds.node i m (h.has i hv).2 hm
      exact ⟨i, n, hv, hn⟩

/-- A whole tree that is followed may be held. -/
theorem Grew.mayHold (h : s.Grew v) (hs : s.Planned p) : s.MayHold v := by
  obtain ⟨⟨i, tag, rfl, hi⟩, hwhole⟩ := h
  obtain ⟨n, hn, -⟩ := hs.fits.exists_node (hs.node hi)
  refine ⟨Value.between_ref (Nat.zero_le i) (World.lt_size hn), fun hprimitive => ?_, hwhole⟩
  have hnumber : s.world.objects[i]? = some .notANumber := hprimitive
  rw [hn] at hnumber
  cases hnumber

variable {σ : Type}

/--
A visitor that, called with a frozen node, does only what a run can do, and answers with a node that
is followed, if it answers.  It may rely on something, of its own state and of the stock, that a
walk keeps by freezing nodes, gathering answers and replacing children.
-/
structure Admits (fn : Value → Walking σ Value) (relies : σ → Stock → Prop) : Prop where
  freeze {state : σ} {s : Stock} {i : Nat} {tag : Tag} {n : Node Value} (h : relies state s)
    (hi : (i, tag) ∈ s.nodes) (hn : s.world.objects[i]? = some (.node n)) :
    relies state (s.frozen n tag)
  gather {state : σ} {s : Stock} (h : relies state s) (items : List Value) :
    relies state (s.into (s.world.add (.list items)))
  adopt {state : σ} {s : Stock} {i : Nat} {tag : Tag} {n : Node Value} {vs : List Value}
    (h : relies state s) (hi : (i, tag) ∈ s.nodes) (hn : s.world.objects[i]? = some (.node n))
    (hvs : ∀ v ∈ vs, s.MayHold v) : relies state (s.adopted i n vs)
  visit {state : σ} {s : Stock} {i : Nat} {tag : Tag} {n : Node Value} (h : relies state s)
    (hi : (i, tag) ∈ s.nodes) (hn : s.world.objects[i]? = some (.node n))
    (hempty : s.world.HasList n.children []) :
    ∃ s' state' r, Run s s' ∧ (fn (.ref i)).runIn (state, s.world) = (r, (state', s'.world)) ∧
      ∀ v, r = .ok v → s'.Follows v ∧ relies state' s'

end Stock

/-! ## From stage to stage -/

/-- How far a walk is: the state of the visitor, its calls, and the nodes that are followed. -/
structure Stage (σ : Type) where
  state : σ
  visits : List Visit
  stock : Stock
  plan : Plan

namespace Stage

variable {σ α β : Type} {s₀ : Stock} {m m₁ m' : Stage σ} {fn : Value → Walking σ Value}
  {relies : σ → Stock → Prop} {i : Nat} {tag : Tag} {v : Value}

/-- Where the rest of the walk runs. -/
def point (m : Stage σ) : (σ × List Visit) × World := ((m.state, m.visits), m.stock.world)

/-- The stage is reached by a run, and all calls so far are approved. -/
structure Reached (s₀ : Stock) (m : Stage σ) : Prop where
  run : s₀.Run m.stock
  planned : m.stock.Planned m.plan
  visits : ∀ v ∈ m.visits, m.stock.Approves v

/-- The walk goes on from the stage, and the visitor has what it relies on. -/
structure Ready (s₀ : Stock) (relies : σ → Stock → Prop) (m : Stage σ) : Prop
    extends m.Reached s₀ where
  relies : relies m.state m.stock

/-- What is kept from one stage to a later one. -/
abbrev Later (m m' : Stage σ) : Prop := Stock.Advances m.stock m'.stock m.plan m'.plan

/-- A part of a walk ends at a later stage, where something holds of its answer if it has one. -/
inductive Leads (s₀ : Stock) (relies : σ → Stock → Prop) (x : Walking (σ × List Visit) α)
    (m : Stage σ) (post : Stock → α → Prop) : Prop
  | stopped {m' : Stage σ} {f : Fault} (reached : m'.Reached s₀) (later : m.Later m')
      (run : x.runIn m.point = (.error f, m'.point))
  | finished {m' : Stage σ} {a : α} (ready : m'.Ready s₀ relies) (later : m.Later m')
      (run : x.runIn m.point = (.ok a, m'.point)) (holds : post m'.stock a)

variable {x y : Walking (σ × List Visit) α} {post : Stock → α → Prop}

theorem Leads.congr (h : Leads s₀ relies x m post) (hrun : y.runIn m.point = x.runIn m.point) :
    Leads s₀ relies y m post := by
  cases h with
  | stopped reached later run => exact .stopped reached later (hrun.trans run)
  | finished ready later run holds => exact .finished ready later (hrun.trans run) holds

theorem Leads.mono {post' : Stock → α → Prop} (h : Leads s₀ relies x m post)
    (hpost : ∀ s a, post s a → post' s a) : Leads s₀ relies x m post' := by
  cases h with
  | stopped reached later run => exact .stopped reached later run
  | finished ready later run holds => exact .finished ready later run (hpost _ _ holds)

/-- One part after the other: the second one starts at a later stage. -/
theorem Leads.bind {k : α → Walking (σ × List Visit) β} {post' : Stock → β → Prop}
    (h : Leads s₀ relies x m post)
    (hk : ∀ (a : α) (m₁ : Stage σ), m₁.Ready s₀ relies → m.Later m₁ → post m₁.stock a →
      Leads s₀ relies (k a) m₁ post') : Leads s₀ relies (x >>= k) m post' := by
  cases h with
  | stopped reached later run => exact .stopped reached later (Stateful.runIn_bind_error run)
  | finished ready later run holds =>
    cases hk _ _ ready later holds with
    | stopped reached' later' run' =>
      exact .stopped reached' (later.trans later') ((Stateful.runIn_bind_ok run).trans run')
    | finished ready' later' run' holds' =>
      exact .finished ready' (later.trans later') ((Stateful.runIn_bind_ok run).trans run') holds'

/-- What is answered without doing anything. -/
theorem leads_pure {a : α} (hm : m.Ready s₀ relies) (ha : post m.stock a) :
    Leads s₀ relies (pure a : Walking (σ × List Visit) α) m post :=
  .finished hm (.refl _ _) rfl ha

/-- What one more step leads to, if the visitor still has what it relies on. -/
theorem Ready.step (hm : m.Ready s₀ relies) {s' : Stock} {p' : Plan} (step : m.stock.Step s')
    (hplanned : s'.Planned p') (hlater : Stock.Advances m.stock s' m.plan p')
    (hrelies : relies m.state s') : Ready s₀ relies { m with stock := s', plan := p' } where
  run := hm.run.tail step
  planned := hplanned
  visits visit hvisit := (hm.visits visit hvisit).later hlater
  relies := hrelies

/-! ### Visiting a node -/

/-- A node that is followed is frozen. -/
theorem leads_askFrozen (hfn : Stock.Admits fn relies) (hm : m.Ready s₀ relies)
    (hi : (i, tag) ∈ m.stock.nodes) :
    Leads s₀ relies (liftM (askFrozen (.ref i)) : Walking (σ × List Visit) Value) m fun s v =>
      ∃ j n, v = .ref j ∧ (j, tag) ∈ s.nodes ∧ s.world.objects[j]? = some (.node n) ∧
        s.world.HasList n.children [] := by
  obtain ⟨n, hn, houtlines⟩ := hm.planned.fits.exists_node (hm.planned.node hi)
  obtain ⟨p', hplanned, hlater, -⟩ := hm.planned.exists_freeze hi hn
  have hfreeze := runIn_freezeNode houtlines.freezable m.stock.world
  have hstep : m.stock.Step (m.stock.frozen n tag) := by
    refine .freeze hi ?_
    rw [freeze, runIn_bind_ok (runIn_objectOf hn), hfreeze]
  exact .finished (hm.step hstep hplanned hlater (hfn.freeze hm.relies hi hn)) hlater
    (Walking.runIn_lift ((runIn_askFrozen hn).trans hfreeze) _) ⟨_, _, rfl, List.mem_cons_self,
      World.get_withFrozenCopy_node, _, rfl, World.get_withFrozenCopy_list⟩

/-- The visitor is called with a frozen node. -/
theorem leads_logged (hfn : Stock.Admits fn relies) (hm : m.Ready s₀ relies)
    (hi : (i, tag) ∈ m.stock.nodes) {n : Node Value}
    (hn : m.stock.world.objects[i]? = some (.node n))
    (hempty : m.stock.world.HasList n.children []) :
    Leads s₀ relies (logged fn (.ref i)) m fun s v => s.Follows v := by
  obtain ⟨s', state', r, hrun, hvisit, hanswer⟩ := hfn.visit hm.relies hi hn hempty
  obtain ⟨p', hplanned, hlater⟩ := hm.planned.exists_run hrun
  have hreached : Reached s₀ ⟨state', m.visits ++
      [⟨.ref i, m.stock.world.look (.ref i), r⟩], s', p'⟩ := by
    refine ⟨hm.run.trans hrun, hplanned, List.forall_mem_append.mpr ⟨fun v hv => ?_, ?_⟩⟩
    · exact (hm.visits v hv).later hlater
    · exact List.forall_mem_singleton.mpr
        ⟨⟨i, tag, rfl, hlater.nodes _ hi⟩, fun a ha => (hanswer a ha).1⟩
  cases r with
  | error f => exact .stopped hreached hlater (runIn_logged hvisit m.visits)
  | ok a =>
    obtain ⟨hfollows, hrelies⟩ := hanswer a rfl
    exact .finished ⟨hreached, hrelies⟩ hlater (runIn_logged hvisit m.visits) hfollows

/-- A node is frozen, and the visitor is called with the copy. -/
theorem leads_visit (hfn : Stock.Admits fn relies) (hm : m.Ready s₀ relies)
    (hi : (i, tag) ∈ m.stock.nodes) :
    Leads s₀ relies ((liftM (askFrozen (.ref i)) : Walking (σ × List Visit) Value) >>= logged fn) m
      fun s v => s.Follows v := by
  refine (leads_askFrozen hfn hm hi).bind fun v m₁ hm₁ _ hv => ?_
  obtain ⟨j, n, rfl, hj, hn, hempty⟩ := hv
  exact leads_logged hfn hm₁ hj hn hempty

/-! ### Going through the children -/

/-- Something that holds of a value later on too, whatever is done. -/
def Lasting (post : Stock → Value → Prop) : Prop :=
  ∀ (s s' : Stock) (p p' : Plan) (v : Value), Stock.Advances s s' p p' → post s v → post s' v

variable {good : Stock → Value → Prop} {f : Value → Walking (σ × List Visit) Value}
  {vs : List Value}

theorem leads_mapM (hgood : Lasting good) (hm : m.Ready s₀ relies)
    (h : ∀ v ∈ vs, ∀ m₁ : Stage σ, m₁.Ready s₀ relies → m.Later m₁ →
      Leads s₀ relies (f v) m₁ good) :
    Leads s₀ relies (vs.mapM f) m fun s bs => ∀ b ∈ bs, good s b := by
  induction vs generalizing m with
  | nil => exact leads_pure hm nofun
  | cons v vs ih =>
    rw [List.mapM_cons]
    obtain ⟨hv, hvs⟩ := List.forall_mem_cons.mp h
    refine (hv m hm (.refl _ _)).bind fun b m₁ hm₁ hlater hb => ?_
    refine (ih hm₁ fun u hu m₂ hm₂ hlater' => hvs u hu m₂ hm₂ (hlater.trans hlater')).bind
      fun bs m₂ hm₂ hlater' hbs => leads_pure hm₂ ?_
    exact List.forall_mem_cons.mpr ⟨hgood _ _ _ _ b hlater' hb, hbs⟩

/-- The children of a node in a whole tree are gone through once. -/
theorem leads_answersOf (hgood : Lasting good) (hm : m.Ready s₀ relies)
    (hi : (i, tag) ∈ m.stock.nodes) (hwhole : m.stock.Whole (.ref i))
    (h : ∀ (v : Value) (m₁ : Stage σ), m₁.Ready s₀ relies → m₁.stock.MayHold v →
      Leads s₀ relies (f v) m₁ good) :
    Leads s₀ relies (liftM (member (.ref i) "children") >>= fun children => answersOf f children) m
      fun s bs => ∀ b ∈ bs, good s b := by
  obtain ⟨n, l, vs, hn, hl, hrole, hlist, hhold⟩ := hm.planned.exists_mayHold hi hwhole
  have hmapM : Leads s₀ relies (vs.mapM f) m fun s bs => ∀ b ∈ bs, good s b :=
    leads_mapM hgood hm fun v hv m₁ hm₁ hlater => h v m₁ hm₁ ((hhold v hv).later hlater)
  refine hmapM.congr ?_
  have hchildren : (liftM (member (.ref i) "children") : Walking (σ × List Visit) Value).runIn
      m.point = (.ok (.ref l), m.point) := hl ▸ runIn_member_children hn
  rw [Stateful.runIn_bind_ok hchildren]
  refine runIn_answersOf_kept hlist fun bs q hq => ?_
  cases hmapM with
  | stopped _ _ run =>
    rw [hq] at run
    cases run
  | finished _ later run _ =>
    rw [hq] at run
    cases run
    exact (later.lists l hrole).trans hlist

/-- A child is walked if it is a node, and else it is left as it is. -/
theorem leads_walkChild {walk : Value → Walking (σ × List Visit) Value} (hm : m.Ready s₀ relies)
    (hv : m.stock.MayHold v)
    (h : ∀ i tag, (i, tag) ∈ m.stock.nodes → m.stock.Whole (.ref i) →
      Leads s₀ relies (walk (.ref i)) m good) :
    Leads s₀ relies (walkChild walk v) m fun s b => good s b ∨ s.MayHold b := by
  obtain ⟨b, hb, hnode⟩ := runIn_isNode v m.stock.world
  have hask : (liftM (isNode v) : Walking (σ × List Visit) Bool).runIn m.point =
      (.ok b, m.point) := Walking.runIn_lift hb _
  cases b with
  | false =>
    have hleft : Leads s₀ relies (pure v : Walking (σ × List Visit) Value) m fun s b =>
        good s b ∨ s.MayHold b := leads_pure hm (.inr hv)
    exact hleft.congr (Stateful.runIn_bind_ok hask)
  | true =>
    obtain ⟨i, n, rfl, hn⟩ := hnode.mp rfl
    obtain ⟨tag, hi⟩ := hv.whole.exists_tag hn
    have hwalk := (h i tag hi hv.whole).mono fun s b (hb : good s b) =>
      (.inl hb : good s b ∨ s.MayHold b)
    exact hwalk.congr (runIn_walkChild_walking walk hn)

/-! ### Walking a tree -/

/-- What is gathered for a node is good if what was gathered for its children is or may be held. -/
def Gathers (s₀ : Stock) (relies : σ → Stock → Prop)
    (gather : Value → List Value → Walking (σ × List Visit) Value)
    (good : Stock → Value → Prop) : Prop :=
  ∀ (m : Stage σ) (v : Value) (rest : List Value), m.Ready s₀ relies → m.stock.Follows v →
    (∀ b ∈ rest, good m.stock b ∨ m.stock.MayHold b) → Leads s₀ relies (gather v rest) m good

/-- A whole tree is walked, to whatever depth. -/
theorem leads_walkTo (hfn : Stock.Admits fn relies) (hgood : Lasting good)
    {gather : Value → List Value → Walking (σ × List Visit) Value}
    (hgather : Gathers s₀ relies gather good) (depth : Nat) (hm : m.Ready s₀ relies)
    (hi : (i, tag) ∈ m.stock.nodes) (hwhole : m.stock.Whole (.ref i)) :
    Leads s₀ relies (walkTo (logged fn) gather depth (.ref i)) m good := by
  have hparts : Lasting fun s b => good s b ∨ s.MayHold b := fun s s' p p' b hlater =>
    Or.imp (hgood s s' p p' b hlater) (·.later hlater)
  induction depth generalizing m i tag with
  | zero => exact .stopped hm.toReached (.refl _ _) (Walking.runIn_lift rfl _)
  | succ depth ih =>
    rw [walkTo_succ]
    refine (leads_visit hfn hm hi).bind fun first m₁ hm₁ hlater hfirst => ?_
    -- the tree may have changed, but it is whole, and its lists of children stay as they are
    have hchildren := leads_answersOf (f := walkChild (walkTo (logged fn) gather depth)) hparts hm₁
      (hlater.nodes _ hi) (hlater.whole i tag hi hwhole) fun v m' hm' hv =>
        leads_walkChild hm' hv fun k tag' hk hwhole' => ih hm' hk hwhole'
    have hall := hchildren.bind fun rest m₂ hm₂ hlater' hrest =>
      hgather m₂ first rest hm₂ (hfirst.later hlater') hrest
    rwa [bind_assoc] at hall

/-- Answers are put into a list, which is no part of a node. -/
theorem gathers_gatherList (s₀ : Stock) (hfn : Stock.Admits fn relies) :
    Gathers s₀ relies (gatherList : Value → List Value → Walking (σ × List Visit) Value)
      fun _ _ => True := by
  intro m v rest hm _ _
  have hchanges : m.stock.world.ChangesOnly (fun k => ¬ m.stock.own k)
      (m.stock.world.add (.list (v :: rest))) := World.changesOnly_add
  have hkinds : m.stock.world.KeepsKinds (m.stock.world.add (.list (v :: rest))) :=
    World.Retains.keepsKinds World.changesOnly_add
  obtain ⟨hplanned, hlater⟩ := hm.planned.elsewhere hchanges hkinds
  exact .finished (hm.step (.elsewhere hchanges hkinds) hplanned hlater (hfn.gather hm.relies _))
    hlater (Walking.runIn_lift (runIn_make' _ _) _) trivial

/-- An answer with other children is a whole tree. -/
theorem gathers_gatherTree (s₀ : Stock) (hfn : Stock.Admits fn relies) :
    Gathers s₀ relies (gatherTree : Value → List Value → Walking (σ × List Visit) Value)
      Stock.Grew := by
  intro m v rest hm hv hrest
  obtain ⟨j, tag, rfl, hj⟩ := hv
  have hhold : ∀ b ∈ rest, m.stock.MayHold b := fun b hb =>
    (hrest b hb).elim (fun hgrew => hgrew.mayHold hm.planned) id
  obtain ⟨n, hn, -⟩ := hm.planned.fits.exists_node (hm.planned.node hj)
  obtain ⟨p', hplanned, hlater, hwhole⟩ := hm.planned.exists_adopt hj hn hhold
  have hrun := runIn_replaceChildren hn rest
  have hstep : m.stock.Step (m.stock.adopted j n rest) := by
    have hadopt := Stock.Step.adopt hj hhold
    rwa [hrun] at hadopt
  exact .finished (hm.step hstep hplanned hlater (hfn.adopt hm.relies hj hn hhold)) hlater
    (Stateful.runIn_bind_ok (Walking.runIn_lift hrun _)) ⟨⟨j, tag, rfl, hj⟩, hwhole⟩

end Stage

end Markup
