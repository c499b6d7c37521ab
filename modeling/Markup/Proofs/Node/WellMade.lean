import Markup.Proofs.Node.Stages
import Markup.Proofs.Node.Walkers

/-!
# Nodes stay well made

However nodes that constructors made are listened on, frozen and walked, all of them are well made
(`Stock.wellMade_of_run`).  Visitors may be any that `Stock.Admits` describes, such as those that
answer with their argument or with a node from before (`Stock.admits_of_answers`), and those that
call a constructor (`Stock.admits_renewing`).

Nodes that no constructor made are walked too if they are below one that a constructor made.  Their
copies need not be well made, nor the nodes that get their children (`Stock.walks_meet_unmade`).
-/

namespace Markup

open Operation

namespace Stock

variable {σ : Type}

/-! ## Visitors -/

/-- A visitor that answers with its argument, or with a node that was followed before the walk. -/
theorem admits_of_answers {s₀ : Stock} {fn : Value → Walking σ Value}
    (h : ∀ v state w, ∃ a state', (fn v).runIn (state, w) = (.ok a, (state', w)) ∧
      (a = v ∨ s₀.Follows a)) : Admits fn fun _ s => ∀ e ∈ s₀.nodes, e ∈ s.nodes where
  freeze hs _ _ e he := List.mem_cons_of_mem _ (hs e he)
  gather hs _ := hs
  adopt hs _ _ _ := hs
  visit {state s i tag _} hs hi _ _ := by
    obtain ⟨a, state', hrun, ha⟩ := h (.ref i) state s.world
    refine ⟨s, state', .ok a, .refl, hrun, fun v hv => ⟨?_, hs⟩⟩
    obtain rfl := Except.ok.inj hv
    rcases ha with rfl | ⟨j, tag', rfl, hj⟩
    · exact ⟨i, tag, rfl, hi⟩
    · exact ⟨j, tag', rfl, hs _ hj⟩

/-- A constructor of paragraphs. -/
def paragraphMaker : Object Value := .constructor ⟨.text "p", .bool false⟩

/-- The tag of what it makes. -/
def paragraphTag : Tag := ⟨"p", .bool false⟩

/-- A visitor that answers with a new paragraph, whatever it is handed. -/
def renewing (_ : Value) : Walking Unit Value := liftM (callValue (.ref 0) ⟨[], []⟩)

theorem runIn_makeParagraph {w : World} (h : w.objects[0]? = some paragraphMaker) :
    (callValue (.ref 0) ⟨[], []⟩).runIn w = (.ok (.ref (w.objects.size + 4)), w.addAll
      (AttributeSet.empty.made w.objects.size (.text "p") (.bool false) "" [])) := by
  have hread : w.read .none = .none := by simp [World.read, Value.none, Term.none]
  have hcall : Arguments.ofCall ["self"] (⟨[], []⟩ : Call Value) =
      .ok ⟨.none, .none, .none, []⟩ := rfl
  have hdescribe : describe (w.read .none) (w.read .none) (w.read .none) [] =
      .ok (.empty, "", []) := by
    rw [hread]
    rfl
  rw [runIn_callValue_constructor h, constructNamed, hcall, runIn_bind_ok (runIn_ofExcept _ w)]
  have hname : "p" ≠ "" := by decide
  exact runIn_construct (a := ⟨.none, .none, .none, []⟩) hdescribe hname false

/-- It relies on the constructor. -/
theorem admits_renewing :
    Admits renewing fun _ s => s.world.objects[0]? = some paragraphMaker where
  freeze h _ _ := (World.retains_withFrozenCopy _ _).kept (Nat.zero_le 0) h
  gather h _ := World.get_add h
  adopt {_ s i _ _ _} h _ hn _ := by
    have hne : 0 ≠ i := by
      rintro rfl
      rw [h] at hn
      cases hn
    rw [adopted, Stock.after, World.get_replace_ne hne, World.get_add h]
  visit {state s _ _ _} h _ _ _ := by
    have hrun := runIn_makeParagraph h
    have hcall : s.world.Calls (callValue (.ref 0) ⟨[], []⟩) paragraphTag
        ⟨.none, .none, .none, []⟩ := .constructor h rfl
    have hgiven : s.world.HasAll .none := World.hasAll_none
    have hstep := Step.build hcall ⟨hgiven, hgiven, hgiven⟩ hrun AttributeSet.get_node
    refine ⟨_, state, _, .single hstep, Walking.runIn_lift hrun state, fun v hv => ⟨?_, ?_⟩⟩
    · exact ⟨_, paragraphTag, (Except.ok.inj hv).symm, List.mem_cons_self⟩
    · exact AttributeSet.extends_made.kept h

/-! ## A paragraph in a paragraph -/

/-- A world with the constructor. -/
def makerWorld : World := .ofObjects #[paragraphMaker]

/-- A paragraph was made. -/
def paragraphStock : Stock :=
  (ofWorld makerWorld).after ((callValue (.ref 0) ⟨[.text "#x"], []⟩).runIn makerWorld).2
    [(5, paragraphTag)]

/-- It was listened on. -/
def listenedStock : Stock :=
  paragraphStock.after ((on (.ref 5) (.text "click") (.ref 0)).runIn paragraphStock.world).2 []

/-- It was put into a list. -/
def listStock : Stock := listenedStock.into (listenedStock.world.add (.list [.ref 5]))

/-- A paragraph was made over it. -/
def nestedStock : Stock :=
  listStock.after ((callValue (.ref 0) ⟨[.ref 7], []⟩).runIn listStock.world).2
    [(12, paragraphTag)]

/-- A paragraph with some id, of the objects from a number on. -/
def paragraphFrom (k : Nat) (id : Value) : Node Value where
  name := .text "p"
  isVoid := .bool false
  id := id
  classes := .ref k
  style := .none
  listeners := .ref (k + 1)
  attrs := .ref (k + 2)
  content := .text ""
  children := .ref (k + 3)

theorem run_nestedStock : Run (ofWorld makerWorld) nestedStock := by
  have hfirst : makerWorld.Calls (callValue (.ref 0) ⟨[.text "#x"], []⟩) paragraphTag
      ⟨.text "#x", .none, .none, []⟩ := .constructor rfl rfl
  have hmade : Step (ofWorld makerWorld) paragraphStock :=
    .build (n := paragraphFrom 1 (.text "x")) hfirst
      (by simp [World.HasAll, World.Has, World.sequence?, Value.text, Value.none])
      (runIn_of_fst (by decide +kernel)) (by decide +kernel)
  have hlistened : Step paragraphStock listenedStock :=
    .listen List.mem_cons_self (by decide +kernel)
  have hlisted : Step listenedStock listStock :=
    .elsewhere World.changesOnly_add (World.Retains.keepsKinds World.changesOnly_add)
  have hsecond : listStock.world.Calls (callValue (.ref 0) ⟨[.ref 7], []⟩) paragraphTag
      ⟨.ref 7, .none, .none, []⟩ := .constructor (by decide +kernel) rfl
  have hsize : listStock.world.objects.size = 8 := by decide +kernel
  have hitems : listStock.world.sequence? (.ref 7) = some [.ref 5] := by decide +kernel
  have hnested : Step listStock nestedStock := by
    refine .build (n := paragraphFrom 8 .none) hsecond
      ⟨⟨?_, fun items hhas => ?_⟩, World.hasAll_none, World.hasAll_none⟩
      (runIn_of_fst (by decide +kernel)) (by decide +kernel)
    · exact Value.between_ref (Nat.zero_le 7) (by omega)
    · obtain rfl := Option.some.inj (hitems.symm.trans hhas)
      exact List.forall_mem_singleton.mpr (Value.between_ref (Nat.zero_le 5) (by omega))
  exact .tail (.tail (.tail (.tail .refl hmade) hlistened) hlisted) hnested

theorem whole_nestedStock : nestedStock.Whole (.ref 12) := by
  have hinner : nestedStock.Whole (.ref 5) :=
    whole_of_children (n := paragraphFrom 1 (.text "x")) (List.mem_cons_of_mem _ List.mem_cons_self)
      (by decide +kernel) ⟨4, rfl, by decide +kernel⟩ (List.forall_mem_nil _)
  exact whole_of_children (n := paragraphFrom 8 .none) List.mem_cons_self (by decide +kernel)
    ⟨11, rfl, by decide +kernel⟩ (List.forall_mem_singleton.mpr hinner)

/-! ## The main result -/

/--
A walk from a stock does what a run does, whether its calls are written down or not.  The nodes that
the visitor is called with and those that it answers with are followed, and something holds of what
the walk answers with.
-/
def Walks (s : Stock) (x : Walking σ Value) (y : Walking (σ × List Visit) Value) (state : σ)
    (good : Stock → Value → Prop) : Prop :=
  ∃ s' state' visits r, Run s s' ∧ x.runIn (state, s.world) = (r, (state', s'.world)) ∧
    y.runIn ((state, []), s.world) = (r, ((state', visits), s'.world)) ∧
    (∀ visit ∈ visits, s'.Approves visit) ∧ ∀ v, r = .ok v → good s' v

theorem walks_of_leads {s : Stock} {p : Plan} {fn : Value → Walking σ Value} {state : σ}
    {good : Stock → Value → Prop} {gather : Value → List Value → Walking σ Value}
    {gatherLogged : Value → List Value → Walking (σ × List Visit) Value}
    (hforgets : ∀ first rest, Forgets (gatherLogged first rest) (gather first rest))
    {relies : σ → Stock → Prop} {depth : Nat} {v : Value}
    (h : Stage.Leads s relies (walkTo (logged fn) gatherLogged depth v) ⟨state, [], s, p⟩ good) :
    s.Walks (walkTo fn gather depth v) (walkTo (logged fn) gatherLogged depth v) state good := by
  have hrun {r : Except Fault Value} {m' : Stage σ}
      (hlogged : (walkTo (logged fn) gatherLogged depth v).runIn ((state, []), s.world) =
        (r, m'.point)) :
      (walkTo fn gather depth v).runIn (state, s.world) = (r, (m'.state, m'.stock.world)) :=
    (forgets_walkTo fn hforgets depth v).runIn hlogged
  cases h with
  | stopped reached _ run =>
    exact ⟨_, _, _, _, reached.run, hrun run, run, reached.visits, nofun⟩
  | finished ready _ run holds =>
    exact ⟨_, _, _, _, ready.run, hrun run, run, ready.visits,
      fun _ hv => Except.ok.inj hv ▸ holds⟩

/--
Nodes that constructors made are well made, and stay so: after any steps, all nodes that are
followed are well made, with the tags that they were made with.  A walk of a whole tree of them is
such steps again, so that the nodes it shows to the visitor, those that it is answered with and, for
a traversal, the tree that it answers with are among them.
-/
theorem wellMade_of_run {w : World} {s : Stock} (run : Run (ofWorld w) s) :
    (∀ e ∈ s.nodes, ∃ n, s.world.objects[e.1]? = some (.node n) ∧ s.world.WellMade e.2 n) ∧
      ∀ {σ : Type} (fn : Value → Walking σ Value) (relies : σ → Stock → Prop), Admits fn relies →
        ∀ i tag state, (i, tag) ∈ s.nodes → s.Whole (.ref i) → relies state s →
          s.Walks (transform fn (.ref i)) (transform (logged fn) (.ref i)) state
              (fun _ _ => True) ∧
            s.Walks (traverse fn (.ref i)) (traverse (logged fn) (.ref i)) state Grew := by
  obtain ⟨p, hs, -⟩ := (planned_ofWorld w).exists_run run
  refine ⟨fun e he => hs.fits.wellMade (hs.node he), ?_⟩
  intro σ fn relies hfn i tag state hi hwhole hrelies
  have hm : Stage.Ready s relies ⟨state, [], s, p⟩ :=
    ⟨⟨.refl, hs, List.forall_mem_nil _⟩, hrelies⟩
  have hlist := Stage.leads_walkTo hfn (fun _ _ _ _ _ _ h => h) (Stage.gathers_gatherList s hfn)
    s.world.depthBound hm hi hwhole
  have htree := Stage.leads_walkTo hfn (fun _ _ _ _ _ hlater h => h.later hlater)
    (Stage.gathers_gatherTree s hfn) s.world.depthBound hm hi hwhole
  simp only [Walks, runIn_transform, runIn_traverse_walk]
  exact ⟨walks_of_leads forgets_gatherList hlist, walks_of_leads forgets_gatherTree htree⟩

/--
Both paragraphs are well made, and so is what comes of listing their copies and of a tree of new
paragraphs in their places.
-/
theorem wellMade_of_run_nested :
    (∀ e ∈ nestedStock.nodes, ∃ n, nestedStock.world.objects[e.1]? = some (.node n) ∧
        nestedStock.world.WellMade e.2 n) ∧
      nestedStock.Walks (transform pure (.ref 12)) (transform (logged pure) (.ref 12)) ()
        (fun _ _ => True) ∧
      nestedStock.Walks (traverse renewing (.ref 12)) (traverse (logged renewing) (.ref 12)) ()
        Grew := by
  have hpure : Admits (pure : Value → Walking Unit Value) fun _ s =>
      ∀ e ∈ nestedStock.nodes, e ∈ s.nodes :=
    admits_of_answers fun v state w => ⟨v, state, rfl, .inl rfl⟩
  obtain ⟨hmade, hwalks⟩ := wellMade_of_run run_nestedStock
  refine ⟨hmade, ?_, ?_⟩
  · exact (hwalks pure _ hpure 12 paragraphTag () List.mem_cons_self whole_nestedStock
      fun _ he => he).1
  · exact (hwalks renewing _ admits_renewing 12 paragraphTag () List.mem_cons_self whole_nestedStock
      (by decide +kernel)).2

/--
Nodes that no constructor made are frozen as they are found: a transformation lists a copy without
content, and a traversal gives a number for a child to a node that its visitor makes with a
constructor.
-/
theorem walks_meet_unmade :
    ((do
        let p ← makeNode (.text "p") { content := some .none }
        let t ← createElement ⟨[.text "div", ← makeList [p]], []⟩
        let copies ← itemOf (← transform pure t) (.int 1)
        member (← itemOf copies (.int 0)) "content" : Operation Value).runIn .initial).1 =
          .ok .none ∧
      ((do
        let p ← makeNode (.text "p") { children := some (← makeList [.int 1]) }
        let t ← createElement ⟨[.text "div", ← makeList [p]], []⟩
        let answers ← member (← traverse (Visitor.visit .shout) t) "children"
        let span ← itemOf answers (.int 0)
        return (← member span "name", ← itemOf (← member span "children") (.int 0)) :
          Operation (Value × Value)).runIn .initial).1 = .ok (.text "span", .int 1) := by
  decide +kernel

end Stock

end Markup
