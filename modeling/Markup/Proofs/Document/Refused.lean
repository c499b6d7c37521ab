import Markup.Proofs.Document.Sketch
import Markup.Proofs.Document.Stepwise

/-!
# Trees that cannot be completed

On any host that follows a relation (`Host.Follows`), a tree with a child that is neither a text nor
a node is materialised as far as the first such child, for which it is then refused
(`Host.Follows.attempts`, `Host.Follows.attemptsStepwise`).  So the calls are those of the sketch,
and the elements made so far are left on the stack.

A host that only serves (`Host.Serves`) may also refuse a call, which ends the work where it stands
(`Host.Serves.tries`).
-/

namespace Markup

open World Operation

variable {w w' : World}

namespace Operation

/-- Going through a list ends where something fails for an item. -/
theorem runIn_eachItem_error {act : Value → Operation Unit} {id : Nat} {vs : List Value}
    {f : Fault} (h : w.objects[id]? = some (.list vs))
    (hrun : (vs.mapM act).runIn w = (.error f, w')) :
    (eachItem act (.ref id)).runIn w = (.error f, w') := by
  rw [runIn_eachItem (runIn_itemsOf h) fun us w₁ hok => by cases hrun.symm.trans hok]
  exact runIn_bind_error hrun

end Operation

theorem Host.materializeChild_of_stray {host : Host Operation Value} {t : Term} (h : t.Stray) :
    host.materializeChild t = fail (Html.invalidChild t) := by
  cases h with
  | @atom a h =>
    cases a with
    | text s => exact absurd rfl (h s)
    | _ => rfl
  | @object id o h =>
    cases o with
    | node n => exact absurd rfl (h n)
    | _ => rfl

/-! ## Hosts that may refuse -/

namespace Host.Serves

variable {host : Host Operation Value}
  {R : World → List DocumentCall → List (Value × ElementTree) → Prop}
  {refused : Fault → World → List DocumentCall → Prop} {sort : Value → Prop}
  {calls : List DocumentCall} {stack : List (Value × ElementTree)}

/--
What is made of an item that draws a sketch where the host may refuse: the element of its tree if it
is one, unless there is a fault, for the first child that is neither a text nor a node or because
the host refused one of the calls of the sketch.
-/
def Tries (R : World → List DocumentCall → List (Value × ElementTree) → Prop)
    (refused : Fault → World → List DocumentCall → Prop) (x : Operation Value)
    (sk : Sketch Term) : Prop :=
  ∀ ⦃w calls stack⦄, R w calls stack → x.Outcome w
    (fun v w' => ∃ tree, sk.tree? = some tree ∧
      R w' (calls ++ sk.calls) ((v, tree.element) :: stack))
    (fun f w' => (∃ u rest more, sk.strays = u :: rest ∧ f = Html.invalidChild u ∧
      R w' (calls ++ sk.calls) (more ++ stack)) ∨ refused f w' (calls ++ sk.calls))

/-- The children are made and appended up to a fault. -/
theorem appendItems (F : host.Serves R refused sort) {items : List Term}
    {children : List (Sketch Term)} {e : Value} {h : Head}
    (hmake : List.Forall₂ (fun item c => Tries R refused (host.materializeChild item) c)
      items children) {made : List ElementTree}
    (hR : R w calls ((e, .element h.parts made) :: stack)) :
    (host.appendItems e items).Outcome w
      (fun _ w' => ∃ trees, Sketch.trees? children = some trees ∧
        R w' (calls ++ Sketch.callsBelow h children)
          ((e, .element h.parts (made ++ Tree.elementsOf trees)) :: stack))
      (fun f w' => (∃ u rest more, Sketch.straysOf children = u :: rest ∧
        f = Html.invalidChild u ∧ R w' (calls ++ Sketch.callsBelow h children) (more ++ stack)) ∨
          refused f w' (calls ++ Sketch.callsBelow h children)) := by
  induction hmake generalizing w calls made with
  | nil => exact .of_ok rfl ⟨[], rfl, by simpa [Sketch.callsBelow, Tree.elementsOf] using hR⟩
  | @cons item c items cs hitem _ ih =>
    rw [Host.appendItems, Sketch.straysOf]
    refine (hitem hR).bind ?fault ?made
    case fault =>
      rintro f w' (⟨u, rest, more, hstrays, rfl, hR'⟩ | hrefused)
      · have hnone : c.tree? = none := Sketch.tree?_eq_none_iff.mpr (by simp [hstrays])
        rw [hstrays, List.cons_append]
        refine .inl ⟨u, _, more ++ [(e, .element h.parts made)], rfl, rfl, ?_⟩
        simpa [Sketch.callsBelow, hnone] using hR'
      · refine .inr (F.refused_of_prefix ?_ hrefused)
        rw [Sketch.callsBelow]
        cases htree : c.tree? with
        | none => exact List.prefix_rfl
        | some tree => simp [Sketch.calls_of_tree? htree]
    case made =>
      rintro v w₁ ⟨tree, htree, hR₁⟩
      rw [Sketch.calls_of_tree? htree] at hR₁
      have hbelow : calls ++ Sketch.callsBelow h (c :: cs) = calls ++ tree.calls ++
          [.appendChild (.text h.parts.name) (.text tree.element.label)] ++
          Sketch.callsBelow h cs := by
        simp [Sketch.callsBelow, htree, Head.appendCall]
      rw [Sketch.strays_of_tree? htree, List.nil_append, hbelow]
      refine (F.appendChild hR₁).bind (fun f w' hf => ?_) fun _ w₂ hR₂ => ?_
      · exact .inr (F.more _ hf)
      · refine (ih hR₂).imp ?_ fun _ _ hfailed => hfailed
        rintro - w₃ ⟨trees, htrees, hR₃⟩
        refine ⟨tree :: trees, by rw [Sketch.trees?, htree, htrees], ?_⟩
        simpa [Tree.elementsOf] using hR₃

/-- A term is materialised as far as its sketch is a tree and nothing is refused. -/
theorem tries (F : host.Serves R refused sort) {t : Term} {sk : Sketch Term} (s : t.Draws sk)
    (hsort : sk.Hears sort) : Tries R refused (host.materializeChild t) sk := by
  induction sk generalizing t with
  | text x =>
    intro w calls stack hR
    cases s
    exact (F.createTextNode x hR).imp (fun v w' hR' => ⟨.text x, rfl, hR'⟩) fun _ _ => .inr
  | stray u =>
    intro w calls stack hR
    obtain rfl := s.eq_of_stray
    rw [materializeChild_of_stray s.stray_of]
    exact .of_error rfl (.inl ⟨u, [], [], rfl, rfl, by simpa [Sketch.calls] using hR⟩)
  | node h children ih =>
    intro w calls stack hR
    obtain ⟨id, n, list, items, rfl, fields, holder, below⟩ := s.exists_node
    have hmake : List.Forall₂ (fun item c => Tries R refused (host.materializeChild item) c)
        items children :=
      forall₂_imp_of_mem below fun c hc _ hdraws => ih c hc hdraws (hsort.below c hc)
    have hcalls : calls ++ (Sketch.node h children).calls =
        calls ++ [.createElement (.text h.name)] ++ h.settings.map (Setting.call h.name) ++
          h.contentCalls ++ Sketch.callsBelow h children := by
      simp [Sketch.calls, Head.calls]
    rw [materializeChild_node host fields, holder, hcalls]
    refine (F.createElement h.name hR).bind
      (fun f w' hf => .inr (F.more _ (F.more _ (F.more _ hf)))) ?_
    rintro e w₁ ⟨isVoid, hR₁⟩
    obtain ⟨w₂, hvoid, hR₂⟩ := F.keepVoid h.isVoid hR₁
    have hnew : R w₂ _ ((e, .element (.new h.name h.isVoid) []) :: stack) := hR₂
    refine .bind_ok hvoid ?_
    refine (F.setAll h.settings (Head.hears_settings hsort.head) hnew).bind
      (fun f w' hf => .inr (F.more _ (F.more _ hf))) fun _ w₃ hR₃ => ?_
    refine (F.addContent hR₃).bind (fun f w' hf => .inr (F.more _ hf)) fun _ w₄ hR₄ => ?_
    refine (F.appendItems hmake hR₄).bind (fun f w' hfailed => hfailed) ?_
    rintro - w₅ ⟨trees, htrees, hR₅⟩
    exact .of_ok rfl ⟨.node h trees, by rw [Sketch.tree?, htrees, Option.map_some], hR₅⟩

end Host.Serves

namespace Host.Follows

variable {host : Host Operation Value}
  {R : World → List DocumentCall → List (Value × ElementTree) → Prop} {sort : Value → Prop}
  {calls : List DocumentCall} {stack : List (Value × ElementTree)}

/--
What is made of an item that draws a sketch: the element of its tree if it is one, otherwise a
refusal for the first child that is neither a text nor a node, after the calls before it.
-/
structure Attempts {α : Type} (R : World → List DocumentCall → List (Value × ElementTree) → Prop)
    (refusal : World → α → Fault) (x : Operation Value) (sk : Sketch α) : Prop where
  makes : ∀ tree, sk.tree? = some tree → Makes R x tree
  stops : ∀ u rest, sk.strays = u :: rest → ∀ ⦃w calls stack⦄, R w calls stack →
    ∃ w' more, x.runIn w = (.error (refusal w' u), w') ∧ R w' (calls ++ sk.calls) (more ++ stack)

/-- The children are made and appended up to the first one that is refused. -/
theorem appendEach_stops (F : host.Follows R sort) {α β : Type} {refusal : World → α → Fault}
    {make : β → Operation Value} {items : List β} {children : List (Sketch α)} {e : Value}
    {h : Head} {u : α} {rest : List α}
    (hmake : List.Forall₂ (fun item c => Attempts R refusal (make item) c) items children)
    (hu : Sketch.straysOf children = u :: rest) {made : List ElementTree}
    (hR : R w calls ((e, .element h.parts made) :: stack)) :
    ∃ w' more, (items.mapM fun item => do host.appendChild e (← make item)).runIn w =
        (.error (refusal w' u), w') ∧
      R w' (calls ++ Sketch.callsBelow h children) (more ++ stack) := by
  induction hmake generalizing w calls made rest with
  | nil => cases hu
  | @cons item c items cs hitem _ ih =>
    rw [List.mapM_cons, bind_assoc, Sketch.callsBelow]
    cases htree : c.tree? with
    | none =>
      obtain ⟨x, xs, hstrays⟩ := List.exists_cons_of_ne_nil (Sketch.tree?_eq_none_iff.mp htree)
      rw [Sketch.straysOf, hstrays] at hu
      cases hu
      obtain ⟨w', more, hfail, hR'⟩ := hitem.stops _ _ hstrays hR
      exact ⟨w', more ++ [(e, .element h.parts made)], runIn_bind_error hfail, by simpa using hR'⟩
    | some tree =>
      rw [Sketch.straysOf, Sketch.strays_of_tree? htree, List.nil_append] at hu
      obtain ⟨v, w₁, hchild, hR₁⟩ := hitem.makes tree htree hR
      obtain ⟨w₂, happend, hR₂⟩ := F.appendTree hR₁
      obtain ⟨w₃, more, hrest, hR₃⟩ := ih hu hR₂
      refine ⟨w₃, more, ?_, by simpa using hR₃⟩
      rw [runIn_bind_ok hchild, runIn_bind_ok happend]
      exact runIn_bind_error hrest

/-- A term is materialised as far as its sketch is a tree, read at once. -/
theorem attempts (F : host.Follows R sort) {t : Term} {sk : Sketch Term} (s : t.Draws sk)
    (hsort : sk.Hears sort) :
    Attempts R (fun _ => Html.invalidChild) (host.materializeChild t) sk := by
  have htries := F.serves.tries s hsort
  refine ⟨fun tree htree w calls stack hR => ?_, fun u rest hstrays w calls stack hR => ?_⟩
  · rcases htries hR with
      ⟨v, w', hrun, tree', htree', hR'⟩ | ⟨f, w', -, ⟨u, rest, -, hstrays, -⟩ | hno⟩
    · obtain rfl := Option.some.inj (htree.symm.trans htree')
      rw [Sketch.calls_of_tree? htree] at hR'
      exact ⟨v, w', hrun, hR'⟩
    · rw [Sketch.strays_of_tree? htree] at hstrays
      cases hstrays
    · exact hno.elim
  · rcases htries hR with
      ⟨v, w', -, tree, htree, -⟩ | ⟨f, w', hrun, ⟨u', rest', more, hstrays', rfl, hR'⟩ | hno⟩
    · rw [Sketch.strays_of_tree? htree] at hstrays
      cases hstrays
    · obtain ⟨rfl, -⟩ := List.cons.inj (hstrays.symm.trans hstrays')
      exact ⟨w', more, hrun, hR'⟩
    · exact hno.elim

theorem runIn_materializeChildStepwise_stray {document u : Value} (depth : Nat)
    (h : w.Stray u) : (Operation.materializeChildStepwise document host depth u).runIn w =
      (.error (Html.invalidChild (w.read u)), w) := by
  have hread : (w.read u).Stray := h.unfold w.objects.size
  rw [Operation.materializeChildStepwise, runIn_bind_ok (runIn_read u w)]
  generalize w.read u = t at hread
  cases hread with
  | @atom a h =>
    cases a with
    | text s => exact absurd rfl (h s)
    | _ => rfl
  | @object id o h =>
    cases o with
    | node n => exact absurd rfl (h n)
    | _ => rfl

/-- A value is materialised as far as its sketch is a tree, read field by field. -/
theorem attemptsStepwise (F : host.Follows R sort) {w₀ : World} {document : Value}
    (hreads : Reads w₀ document R)
    (hstrays : ∀ {w calls stack}, R w calls stack → ∀ u, w₀.Stray u → w.Stray u) {v : Value}
    {sk : Sketch Value} {depth : Nat} (s : w₀.Draws v sk) (hsort : sk.Hears sort)
    (hdepth : sk.height ≤ depth) :
    Attempts R (fun w u => Html.invalidChild (w.read u))
      (Operation.materializeChildStepwise document host depth v) sk := by
  have hmakes : ∀ tree, sk.tree? = some tree →
      Makes R (Operation.materializeChildStepwise document host depth v) tree := fun tree ht =>
    F.materializeChildStepwise hreads (s.shows ht) (hsort.of_tree? ht)
      (by rwa [Sketch.height_of_tree? ht])
  induction sk generalizing v depth with
  | text x => exact ⟨hmakes, fun u rest hu => (nomatch hu)⟩
  | stray u =>
    refine ⟨hmakes, fun x rest hx w calls stack hR => ?_⟩
    cases hx
    cases s with
    | stray h =>
      refine ⟨w, [], ?_, by simpa [Sketch.calls] using hR⟩
      exact runIn_materializeChildStepwise_stray depth (hstrays hR _ h)
  | node h children ih =>
    refine ⟨hmakes, fun u rest hu w calls stack hR => ?_⟩
    obtain ⟨id, n, vs, rfl, hobject, hfields, hholder, hbelow⟩ := s.exists_node
    obtain ⟨depth, rfl⟩ := Nat.exists_eq_add_of_le' (show 1 ≤ depth by
      rw [Sketch.height] at hdepth
      omega)
    obtain ⟨list, hlist, hitems⟩ := hholder
    have hhears : (Tree.node h []).Hears sort := by
      intro m hm
      rw [Tree.nodes_node, List.flatMap_nil, List.mem_singleton] at hm
      rw [hm]
      exact hsort.head
    obtain ⟨e, w₁, hhead, hR₁⟩ := F.materializeStepwise_head depth hreads hobject hfields hhears hR
    have hmake : List.Forall₂ (fun v c => Attempts R (fun w u => Html.invalidChild (w.read u))
        (Operation.materializeChildStepwise document host depth v) c) vs children := by
      refine forall₂_imp_of_mem hbelow fun c hc v hdraws => ?_
      have hchild : c.height ≤ depth := by
        have hle := Sketch.height_le_heightOf hc
        rw [Sketch.height] at hdepth
        omega
      exact ih c hc hdraws (hsort.below c hc) hchild fun tree ht =>
        F.materializeChildStepwise hreads (hdraws.shows ht) ((hsort.below c hc).of_tree? ht)
          (by rwa [Sketch.height_of_tree? ht])
    obtain ⟨w₂, more, hrun, hR₂⟩ := F.appendEach_stops hmake hu hR₁
    refine ⟨w₂, more, ?_, by simpa [Sketch.calls] using hR₂⟩
    have heach := runIn_eachItem_error ((hreads.keeps hR₁).list list vs hitems) hrun
    have hread : w.read (.ref id) = .node id _ := read_ref ((hreads.keeps hR).node id n hobject)
    rw [Operation.materializeChildStepwise, runIn_bind_ok (runIn_read _ w), hread]
    refine hhead.trans ?_
    rw [hlist]
    exact runIn_bind_error heach

end Host.Follows

end Markup
