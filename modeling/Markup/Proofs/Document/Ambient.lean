import Markup.Proofs.Document.Acting

/-!
# The ambient document

The page that can be found from anywhere may be installed, replaced and taken away at any time
(`PageStep`), and calls that materialise may be made without a document in between (`PageCall`).
The ambient document is settled by the first of these calls that is made while there is a page
(`World.settledBy`): before it, each call fails and leaves the world as it is; from it on, all calls
act on that page through one document, whatever becomes of the page
(`ambient_settled_by_first_success`).

Neither the calls that failed before nor whether that first call comes to an end makes a
difference, since the document is looked up before anything else is looked at.  A page is whatever
a browser has made; how it answers is open, and each request to it may be refused.
-/

namespace Markup

open Operation World

/-- A call that materialises and can be made without a document. -/
inductive PageCall where
  | materialize (v : Value)
  | toDocument (v : Value)
  | appendList (parent nodes : Value)

/-- A change of the page that can be found from anywhere, or a call without a document. -/
inductive PageStep where
  | install (page : Nat) (proxies : Bool)
  | remove
  | call (c : PageCall)

namespace PageCall

/-- What a call does with a document, or without one. -/
def run : PageCall → Value → Operation Value
  | materialize v, document => Operation.materialize v document
  | toDocument v, document => Operation.toDocument v document
  | appendList parent nodes, document => do
    Operation.appendList parent nodes document
    return .none

/-- Only nodes can be asked to materialise themselves; all else can be tried with any value. -/
def Suits (w : World) : PageCall → Prop
  | toDocument v => ∃ id n, v = .ref id ∧ w.objects[id]? = some (.node n)
  | _ => True

/-- What nodes are appended to at the request of a call, which may be anything. -/
def target : PageCall → Option Value
  | appendList parent _ => some parent
  | _ => none

/-- What a call that succeeds gives: the page node that was made, or nothing. -/
def Gives (w : World) (p : Nat) : PageCall → Value → Prop
  | appendList .., v => v = .none
  | _, v => w.HasPageNode p v

end PageCall

namespace PageStep

/-- What a step does. -/
def run : PageStep → Operation Unit
  | install page proxies => installPage page proxies
  | remove => removePage
  | call c => discard (c.run .none)

/-- What is installed is an object of the browser, and calls suit their values. -/
def Suits (w : World) : PageStep → Prop
  | install page _ => ∃ typeName, w.objects[page]? = some (.foreign typeName)
  | remove => True
  | call c => c.Suits w

/-- The document that a call settles while there is a page: the next object, over that page. -/
def settles (w : World) : PageStep → Option (Nat × Nat)
  | call _ => w.page.map (w.objects.size, ·)
  | _ => none

end PageStep

namespace World

/-- The world after some steps, of which each may have failed. -/
def after (w : World) (steps : List PageStep) : World :=
  steps.foldl (fun w s => (s.run.runIn w).2) w

/-- Whether each step can be taken when its turn comes. -/
def Allows (w : World) : List PageStep → Prop
  | [] => True
  | s :: steps => s.Suits w ∧ (w.after [s]).Allows steps

/-- The document, and its page, of the first call that is made while there is a page. -/
def settledBy (w : World) : List PageStep → Option (Nat × Nat)
  | [] => none
  | s :: steps => (s.settles w).or ((w.after [s]).settledBy steps)

/-- No document has been looked up yet, and what can be found from anywhere is a page. -/
structure Unsettled (w : World) (browser : Browser) : Prop where
  browser : w.browser = browser
  ambient : w.ambient = none
  page : ∀ p, w.page = some p → ∃ typeName, w.objects[p]? = some (.foreign typeName)

/-- A document over a page is the ambient one. -/
structure Settled (w : World) (browser : Browser) (d p : Nat) : Prop where
  browser : w.browser = browser
  ambient : w.ambient = some d
  hasPageDocument : w.HasPageDocument d p

variable {browser : Browser} {w w₁ w' : World} {d p : Nat} {s : PageStep}
  {steps more : List PageStep}

@[simp] theorem after_cons : w.after (s :: steps) = (w.after [s]).after steps := rfl

theorem settledBy_append :
    w.settledBy (steps ++ more) = (w.settledBy steps).or ((w.after steps).settledBy more) := by
  induction steps generalizing w with
  | nil => rfl
  | cons s steps ih =>
    rw [List.cons_append, settledBy, settledBy, ih, Option.or_assoc, ← after_cons]

theorem allows_append :
    w.Allows (steps ++ more) ↔ w.Allows steps ∧ (w.after steps).Allows more := by
  induction steps generalizing w with
  | nil => simp [Allows, after]
  | cons s steps ih => rw [List.cons_append, Allows, Allows, ih, and_assoc, ← after_cons]

/-- What is settled stays settled. -/
theorem settledBy_append_of_some {found : Nat × Nat} (h : w.settledBy steps = some found)
    (more : List PageStep) : w.settledBy (steps ++ more) = some found := by
  rw [settledBy_append, h]
  rfl

/-- The next step settles what none has settled before. -/
theorem settledBy_append_of_none (h : w.settledBy steps = none) (s : PageStep) :
    w.settledBy (steps ++ [s]) = s.settles (w.after steps) := by
  rw [settledBy_append, h, settledBy, settledBy]
  exact Option.or_none

/-! ## Looking the ambient document up -/

/-- The world in which a new document over a page is the ambient one. -/
def settleOn (w : World) (p : Nat) : World :=
  { w.add (.browserDocument (.ref p) []) with ambient := some w.objects.size }

theorem Unsettled.settleOn (h : w.Unsettled browser) (hp : w.page = some p) :
    (w.settleOn p).Settled browser w.objects.size p where
  browser := h.browser
  ambient := rfl
  hasPageDocument := ⟨get_add_new, (h.page p hp).imp fun _ hpage => get_add hpage⟩

theorem runIn_ambientDocument_settled (h : w.ambient = some d) :
    ambientDocument.runIn w = (.ok (.ref d), w) := by
  rw [ambientDocument, runIn_bind_ok (runIn_world w)]
  simp only [h]
  rfl

theorem runIn_ambientDocument_page (h : w.ambient = none) (hp : w.page = some p) :
    ambientDocument.runIn w = (.ok (.ref w.objects.size), w.settleOn p) := by
  rw [ambientDocument, runIn_bind_ok (runIn_world w)]
  simp only [h, hp]
  rfl

/-- A look-up that fails settles nothing. -/
theorem runIn_ambientDocument_none (h : w.ambient = none) (hp : w.page = none) :
    ambientDocument.runIn w = (.error .noAmbientDocument, w) := by
  rw [ambientDocument, runIn_bind_ok (runIn_world w)]
  simp only [h, hp]
  rfl

end World

namespace PageCall

variable {w w₁ w' : World} {d p : Nat} {c : PageCall}

/-- A node that is asked to materialise itself does so. -/
theorem runIn_toDocument {v : Value} (h : (toDocument v).Suits w) (document : Value) :
    ((toDocument v).run document).runIn w = ((materialize v).run document).runIn w := by
  obtain ⟨id, n, rfl, hnode⟩ := h
  exact runIn_request hnode rfl rfl _ _

/-- As long as nodes stay what they are, a call can be made. -/
theorem Suits.keep (h : c.Suits w)
    (hkept : ∀ {id : Nat} {n : Node Value}, w.objects[id]? = some (.node n) →
      w'.objects[id]? = some (.node n)) : c.Suits w' := by
  cases c with
  | toDocument v =>
    obtain ⟨id, n, rfl, hnode⟩ := h
    exact ⟨id, n, rfl, hkept hnode⟩
  | materialize v => trivial
  | appendList parent nodes => trivial

/-- The ambient document is looked up first, and takes the place of the one that was not given. -/
theorem runIn_run_found (hsuits : c.Suits w) (hsuits' : c.Suits w₁)
    (h : ambientDocument.runIn w = (.ok (.ref d), w₁)) :
    (c.run .none).runIn w = (c.run (.ref d)).runIn w₁ := by
  have hgiven : (documentOr .none).runIn w = (.ok (.ref d), w₁) := h
  have hmaterialize : ∀ v, ((materialize v).run .none).runIn w =
      ((materialize v).run (.ref d)).runIn w₁ := fun v => runIn_bind_ok hgiven
  cases c with
  | materialize v => exact hmaterialize v
  | toDocument v =>
    rw [runIn_toDocument hsuits, runIn_toDocument hsuits']
    exact hmaterialize v
  | appendList parent nodes =>
    have happend : (Operation.appendList parent nodes .none).runIn w =
        (Operation.appendList parent nodes (.ref d)).runIn w₁ := runIn_bind_ok hgiven
    rw [run, run, runIn_bind, runIn_bind, happend]

/-- Where it is not found, nothing else is done. -/
theorem runIn_run_missing (hsuits : c.Suits w) {f : Fault}
    (h : ambientDocument.runIn w = (.error f, w)) : (c.run .none).runIn w = (.error f, w) := by
  have hgiven : (documentOr .none).runIn w = (.error f, w) := h
  cases c with
  | materialize v => exact runIn_bind_error hgiven
  | toDocument v =>
    rw [runIn_toDocument hsuits]
    exact runIn_bind_error hgiven
  | appendList parent nodes => exact runIn_bind_error (runIn_bind_error hgiven)

/-- That there is a document over a page of a faithful browser lasts. -/
theorem outlasts_document {target : Option Value} (d p : Nat) :
    Outlasts p target fun w => w.browser.Faithful ∧ w.HasPageDocument d p where
  faithful _ h := h.1
  later _ _ h hacts := ⟨hacts.browser ▸ h.1, h.2.later hacts⟩

theorem actsOn_materialize {target : Option Value} (hfaithful : w.browser.Faithful)
    (hdoc : w.HasPageDocument d p) (v : Value) :
    w.ActsOn p target (((materialize v).run (.ref d)).runIn w).2 ∧
      ∀ u, (((materialize v).run (.ref d)).runIn w).1 = .ok u →
        (((materialize v).run (.ref d)).runIn w).2.HasPageNode p u := by
  have hraises : Raises p target (fun u => u.browser.Faithful ∧ u.HasPageDocument d p)
      (materializeWith (.ref d) v) :=
    raises_materializeWith (outlasts_document d p) (fun _ h => h.2) v
  exact ⟨hraises.1 ⟨hfaithful, hdoc⟩, fun u hu => hraises.2 ⟨hfaithful, hdoc⟩ (runIn_of_fst hu)⟩

/-- With a document over a page, a call acts on the page and gives what it makes there. -/
theorem actsOn_run (hfaithful : w.browser.Faithful) (hsuits : c.Suits w)
    (hdoc : w.HasPageDocument d p) :
    w.ActsOn p c.target ((c.run (.ref d)).runIn w).2 ∧
      ∀ v, ((c.run (.ref d)).runIn w).1 = .ok v → c.Gives ((c.run (.ref d)).runIn w).2 p v := by
  cases c with
  | materialize v => exact actsOn_materialize hfaithful hdoc v
  | toDocument v =>
    rw [runIn_toDocument hsuits]
    exact actsOn_materialize hfaithful hdoc v
  | appendList parent nodes =>
    have hC := (outlasts_document d p : Outlasts p (some parent) _)
    have hP := closed_acts hC
    have hacts := acts_appendList hC (fun _ hu => hu.2) rfl nodes
    refine ⟨hP.bind hacts (fun _ => hP.done _) ⟨hfaithful, hdoc⟩, ?_⟩
    intro v hv
    obtain ⟨⟨⟩, w₁, -, hdone⟩ := ok_of_runIn_bind (runIn_of_fst hv)
    cases hdone
    rfl

end PageCall

namespace World

variable {browser : Browser} {w w₁ w' : World} {d p : Nat} {s : PageStep} {steps : List PageStep}
  {c : PageCall}

/-! ## One step -/

theorem after_install (w : World) (page : Nat) (proxies : Bool) :
    w.after [.install page proxies] = { w with page := some page, proxies } := rfl

theorem after_remove (w : World) :
    w.after [.remove] = { w with page := none, proxies := false } := rfl

theorem after_call (w : World) (c : PageCall) :
    w.after [.call c] = ((c.run .none).runIn w).2 := by
  have hrun : w.after [.call c] =
      ((c.run .none >>= fun _ => pure () : Operation Unit).runIn w).2 := rfl
  rw [hrun, runIn_bind]
  rcases (c.run .none).runIn w with ⟨r, w'⟩
  cases r <;> rfl

theorem Settled.later {target : Option Value} (h : w.Settled browser d p)
    (hacts : w.ActsOn p target w') : w'.Settled browser d p :=
  ⟨hacts.browser.trans h.browser, hacts.ambient.trans h.ambient, h.hasPageDocument.later hacts⟩

/-- A call with the ambient document keeps it the ambient one. -/
theorem Settled.call (h : w.Settled browser d p) (hfaithful : browser.Faithful)
    (hsuits : c.Suits w) : ((c.run (.ref d)).runIn w).2.Settled browser d p := by
  rw [← h.browser] at hfaithful
  exact h.later (PageCall.actsOn_run hfaithful hsuits h.hasPageDocument).1

/-- Once a document is settled, it stays the ambient one whatever becomes of the page. -/
theorem Settled.step (h : w.Settled browser d p) (hfaithful : browser.Faithful)
    (hsuits : s.Suits w) : (w.after [s]).Settled browser d p := by
  cases s with
  | install page proxies =>
    rw [after_install]
    exact ⟨h.browser, h.ambient, h.hasPageDocument.document, h.hasPageDocument.page⟩
  | remove =>
    rw [after_remove]
    exact ⟨h.browser, h.ambient, h.hasPageDocument.document, h.hasPageDocument.page⟩
  | call c =>
    rw [after_call,
      PageCall.runIn_run_found hsuits hsuits (runIn_ambientDocument_settled h.ambient)]
    exact h.call hfaithful hsuits

/-- A step that finds no page settles nothing. -/
theorem Unsettled.step (h : w.Unsettled browser) (hsuits : s.Suits w) (hnone : s.settles w = none) :
    (w.after [s]).Unsettled browser := by
  cases s with
  | install page proxies =>
    rw [after_install]
    refine ⟨h.browser, h.ambient, fun p hp => ?_⟩
    rw [← Option.some.inj hp]
    exact hsuits
  | remove =>
    rw [after_remove]
    refine ⟨h.browser, h.ambient, fun p hp => ?_⟩
    cases hp
  | call c =>
    have hpage : w.page = none := Option.map_eq_none_iff.mp hnone
    rw [after_call, PageCall.runIn_run_missing hsuits (runIn_ambientDocument_none h.ambient hpage)]
    exact h

/-- The first call that finds a page settles a document over it, whether it succeeds or not. -/
theorem Unsettled.settled_step (h : w.Unsettled browser) (hfaithful : browser.Faithful)
    (hsuits : s.Suits w) (hsome : s.settles w = some (d, p)) :
    (w.after [s]).Settled browser d p := by
  cases s with
  | install page proxies => cases hsome
  | remove => cases hsome
  | call c =>
    obtain ⟨q, hq, heq⟩ := Option.map_eq_some_iff.mp hsome
    obtain ⟨rfl, rfl⟩ := Prod.mk.inj heq
    have hsuits' : c.Suits (w.settleOn q) := PageCall.Suits.keep hsuits fun hnode => get_add hnode
    rw [after_call,
      PageCall.runIn_run_found hsuits hsuits' (runIn_ambientDocument_page h.ambient hq)]
    exact (h.settleOn hq).call hfaithful hsuits'

/-! ## Whole runs -/

theorem Settled.after (h : w.Settled browser d p) (hfaithful : browser.Faithful)
    (hsteps : w.Allows steps) : (w.after steps).Settled browser d p := by
  induction steps generalizing w with
  | nil => exact h
  | cons s steps ih => exact ih (h.step hfaithful hsteps.1) hsteps.2

/-- After any run, either no document is settled or the one of the first call that found a page. -/
theorem Unsettled.after (h : w.Unsettled browser) (hfaithful : browser.Faithful)
    (hsteps : w.Allows steps) :
    (w.settledBy steps = none → (w.after steps).Unsettled browser) ∧
      ∀ d p, w.settledBy steps = some (d, p) → (w.after steps).Settled browser d p := by
  induction steps generalizing w with
  | nil => exact ⟨fun _ => h, fun _ _ hsome => nomatch hsome⟩
  | cons s steps ih =>
    cases hfirst : s.settles w with
    | none =>
      rw [settledBy, hfirst, Option.none_or]
      exact ih (h.step hsteps.1 hfirst) hsteps.2
    | some found =>
      rw [settledBy, hfirst, Option.some_or]
      refine ⟨(nomatch ·), fun d p hsome => ?_⟩
      rw [Option.some.inj hsome] at hfirst
      exact (h.settled_step hfaithful hsteps.1 hfirst).after hfaithful hsteps.2

/-- What the look-up of a call finds: the document that is settled, as it was if it was before. -/
theorem Unsettled.exists_lookup (h : w.Unsettled browser) (hfaithful : browser.Faithful)
    (hsteps : w.Allows steps) (hsuits : c.Suits (w.after steps))
    (hsome : w.settledBy (steps ++ [.call c]) = some (d, p)) :
    ∃ w₁, ambientDocument.runIn (w.after steps) = (.ok (.ref d), w₁) ∧
      (w.settledBy steps = some (d, p) → w₁ = w.after steps) ∧ w₁.Settled browser d p ∧
      c.Suits w₁ := by
  obtain ⟨hunsettled, hsettled⟩ := h.after hfaithful hsteps
  cases hbefore : w.settledBy steps with
  | some found =>
    obtain rfl : found = (d, p) :=
      Option.some.inj ((settledBy_append_of_some hbefore _).symm.trans hsome)
    have hstands := hsettled d p hbefore
    exact ⟨w.after steps, runIn_ambientDocument_settled hstands.ambient, fun _ => rfl,
      hstands, hsuits⟩
  | none =>
    have hstands := hunsettled hbefore
    rw [settledBy_append_of_none hbefore] at hsome
    obtain ⟨q, hq, heq⟩ := Option.map_eq_some_iff.mp hsome
    obtain ⟨rfl, rfl⟩ := Prod.mk.inj heq
    exact ⟨(w.after steps).settleOn q, runIn_ambientDocument_page hstands.ambient hq,
      (nomatch ·), hstands.settleOn hq, hsuits.keep fun hnode => get_add hnode⟩

end World

/--
The ambient document is settled by the first call that is made while there is a page.  Take any run
of steps that install, replace or take away the page and make calls without a document, and one call
more.

* If no call has found a page, and there is none now either, the call fails with just that fault,
  nothing is made or changed, and still nothing is settled.
* If no call has found a page but there is one now, this page and a new document over it are
  settled.
* Whatever is settled by then stays settled: the call looks up that very document over that page,
  and does what it does when it is given this document.  So it acts on the page: all that the
  browser is asked for is about this page and the nodes that it made, but for what is appended to
  the parent that the call names, and what the call gives is made on the page.
-/
theorem ambient_settled_by_first_success {browser : Browser} (hfaithful : browser.Faithful)
    {w : World} (hw : w.Unsettled browser) {steps : List PageStep} {c : PageCall}
    (hsteps : w.Allows (steps ++ [.call c])) :
    (w.settledBy steps = none → (w.after steps).page = none →
      (c.run .none).runIn (w.after steps) = (.error .noAmbientDocument, w.after steps) ∧
        w.settledBy (steps ++ [.call c]) = none) ∧
    (∀ p, w.settledBy steps = none → (w.after steps).page = some p →
      w.settledBy (steps ++ [.call c]) = some ((w.after steps).objects.size, p)) ∧
    ∀ d p, w.settledBy (steps ++ [.call c]) = some (d, p) →
      (∀ later, w.settledBy (steps ++ .call c :: later) = some (d, p)) ∧
      ∃ w₁ r w₂, ambientDocument.runIn (w.after steps) = (.ok (.ref d), w₁) ∧
        (w.settledBy steps = some (d, p) → w₁ = w.after steps) ∧
        w₁.HasPageDocument d p ∧
        (c.run .none).runIn (w.after steps) = (r, w₂) ∧ (c.run (.ref d)).runIn w₁ = (r, w₂) ∧
        w₁.ActsOn p c.target w₂ ∧ ∀ v, r = .ok v → c.Gives w₂ p v := by
  obtain ⟨hbefore, hsuits, -⟩ := allows_append.mp hsteps
  obtain ⟨hunsettled, hsettled⟩ := hw.after hfaithful hbefore
  refine ⟨?missing, ?first, ?later⟩
  case missing =>
    intro hnone hpage
    have hlookup := runIn_ambientDocument_none (hunsettled hnone).ambient hpage
    refine ⟨PageCall.runIn_run_missing hsuits hlookup, ?_⟩
    rw [settledBy_append_of_none hnone, PageStep.settles, hpage, Option.map_none]
  case first =>
    intro p hnone hpage
    rw [settledBy_append_of_none hnone, PageStep.settles, hpage, Option.map_some]
  case later =>
    intro d p hsome
    have hstays : ∀ later, w.settledBy (steps ++ .call c :: later) = some (d, p) := by
      intro later
      rw [List.append_cons]
      exact settledBy_append_of_some hsome later
    obtain ⟨w₁, hlookup, hsame, hstands, hsuits'⟩ :=
      hw.exists_lookup hfaithful hbefore hsuits hsome
    rw [← hstands.browser] at hfaithful
    obtain ⟨hacts, hgives⟩ := PageCall.actsOn_run hfaithful hsuits' hstands.hasPageDocument
    have hrun := PageCall.runIn_run_found hsuits hsuits' hlookup
    exact ⟨hstays, w₁, _, _, hlookup, hsame, hstands.hasPageDocument, hrun, rfl, hacts, hgives⟩

/--
A world in which no page can be found: a node, another one of which the only child is a number, and
two pages of a browser.
-/
def pagelessWorld : World := { World.ofObjects #[
  .list [], .map [], .list [.int 3],
  .node ⟨.text "p", .bool false, .none, .ref 0, .none, .ref 1, .ref 1, .none, .ref 0⟩,
  .node ⟨.text "div", .bool false, .none, .ref 0, .none, .ref 1, .ref 1, .none, .ref 2⟩,
  .foreign "HTMLDocument", .foreign "HTMLDocument"] with browser := .plain }

/-- A call that finds no page, one that fails on a child, and a page in the place of the first. -/
def replacingSteps : List PageStep :=
  [.call (.toDocument (.ref 3)), .install 5 false, .call (.materialize (.ref 4)), .remove,
    .install 6 true]

theorem ambient_settled_by_first_success_replaced :
    Browser.plain.Faithful ∧ pagelessWorld.Unsettled .plain ∧
      pagelessWorld.Allows (replacingSteps ++ [.call (.toDocument (.ref 3))]) ∧
      (pagelessWorld.after replacingSteps).page = some 6 ∧
      ∃ r w₂, ambientDocument.runIn (pagelessWorld.after replacingSteps) =
          (.ok (.ref 7), pagelessWorld.after replacingSteps) ∧
        (pagelessWorld.after replacingSteps).HasPageDocument 7 5 ∧
        (toDocument (.ref 3) .none).runIn (pagelessWorld.after replacingSteps) = (r, w₂) ∧
        (pagelessWorld.after replacingSteps).ActsOn 5 none w₂ ∧
        ∀ v, r = .ok v → w₂.HasPageNode 5 v := by
  have hw : pagelessWorld.Unsettled .plain := ⟨rfl, rfl, fun _ hp => nomatch hp⟩
  have hsteps : pagelessWorld.Allows (replacingSteps ++ [.call (.toDocument (.ref 3))]) :=
    ⟨⟨3, _, rfl, rfl⟩, ⟨_, rfl⟩, trivial, trivial, ⟨_, rfl⟩, ⟨3, _, rfl, rfl⟩, trivial⟩
  obtain ⟨-, w₁, r, w₂, hlookup, hsame, hdocument, hrun, -, hacts, hgives⟩ :=
    (ambient_settled_by_first_success Browser.faithful_plain hw hsteps).2.2 7 5 rfl
  obtain rfl : w₁ = pagelessWorld.after replacingSteps := hsame rfl
  exact ⟨Browser.faithful_plain, hw, hsteps, rfl, r, w₂, hlookup, hdocument, hrun, hacts, hgives⟩

end Markup
