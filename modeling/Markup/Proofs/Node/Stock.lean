import Markup.Proofs.Node.Plan
import Markup.Proofs.Node.Walk

/-!
# What is done with well-made nodes

A `Stock` is a world with the nodes that are followed in it: those that constructors made and those
that were frozen from them.  `Stock.Step` is what can be done: a constructor is called, a node is
listened on or frozen, its children are replaced by values that may be children, or anything else is
done that leaves the parts of these nodes as they are.  Each step leaves the objects fitting a plan
in which these are the nodes (`Stock.Planned.exists_step`).

A node is `Stock.Whole` if all nodes of its tree are followed.  It remains so, whatever is done
(`Stock.Advances.whole`), and a list of children remains as it is, since children are replaced by a
new list (`Stock.Advances.lists`).
-/

namespace Markup

open Operation

/-! ## Stocks -/

/--
A world, the nodes that are followed in it with the tag that each was made with, and the objects
that were made with them.
-/
structure Stock where
  world : World
  nodes : List (Nat × Tag)
  own : Nat → Prop

namespace Stock

/-- The stock of a world in which no nodes are followed yet. -/
def ofWorld (w : World) : Stock := ⟨w, [], fun _ => False⟩

/-- The stock in another world. -/
def into (s : Stock) (w : World) : Stock := { s with world := w }

/-- The stock in another world, where more nodes are followed and all made since is its own. -/
def after (s : Stock) (w : World) (more : List (Nat × Tag)) : Stock where
  world := w
  nodes := more ++ s.nodes
  own k := s.own k ∨ s.world.objects.size ≤ k ∧ k < w.objects.size

/-- All nodes of a tree are followed. -/
def Whole (s : Stock) (v : Value) : Prop :=
  ∀ path i, NodeAt s.world.TreeParts path v i → ∃ tag, (i, tag) ∈ s.nodes

/-- A value that may be a child: it is no number, and if it is a node then a whole one. -/
structure MayHold (s : Stock) (v : Value) : Prop where
  has : s.world.Has v
  text : s.world.IsPrimitive v → ∃ text, v = .text text
  whole : s.Whole v

/-- What can be done with the nodes that are followed, and elsewhere. -/
inductive Step : Stock → Stock → Prop
  /-- A constructor is called with values that are there. -/
  | build {s : Stock} {x : Operation Value} {tag : Tag} {a : Arguments} {i : Nat}
      {n : Node Value} {w : World} (call : s.world.Calls x tag a)
      (given : s.world.HasAll a.one ∧ s.world.HasAll a.two ∧ s.world.HasAll a.three)
      (run : x.runIn s.world = (.ok (.ref i), w)) (made : w.objects[i]? = some (.node n)) :
      Step s (s.after w [(i, tag)])
  /-- A node is listened on with something to call. -/
  | listen {s : Stock} {i : Nat} {tag : Tag} {event listener : Value} (hi : (i, tag) ∈ s.nodes)
      (hlistener : s.world.callable listener = true) :
      Step s (s.after ((on (.ref i) event listener).runIn s.world).2 [])
  /-- A node is frozen. -/
  | freeze {s : Stock} {i j : Nat} {tag : Tag} {w : World} (hi : (i, tag) ∈ s.nodes)
      (run : (freeze (.ref i)).runIn s.world = (.ok (.ref j), w)) : Step s (s.after w [(j, tag)])
  /-- A node gets other children, which is what a traversal does with each answer. -/
  | adopt {s : Stock} {i : Nat} {tag : Tag} {vs : List Value} (hi : (i, tag) ∈ s.nodes)
      (hvs : ∀ v ∈ vs, s.MayHold v) :
      Step s (s.after ((replaceChildren (.ref i) vs).runIn s.world).2 [])
  /-- Anything else is done, and what was made with the nodes is left as it is. -/
  | elsewhere {s : Stock} {w : World} (changes : s.world.ChangesOnly (fun k => ¬ s.own k) w)
      (kinds : s.world.KeepsKinds w) : Step s (s.into w)

open Relation (ReflTransGen)

/-- One step after the other. -/
abbrev Run : Stock → Stock → Prop := ReflTransGen Step

/-- A plan of the stock: its nodes are those that are followed, and all in it is its own. -/
structure Planned (s : Stock) (p : Plan) : Prop where
  fits : p.Fits s.world
  nodes : ∀ i tag, p i = some (.node tag) ↔ (i, tag) ∈ s.nodes
  own : ∀ k r, p k = some r → s.own k

/-- What is kept from one stock to a later one. -/
structure Advances (s s' : Stock) (p p' : Plan) : Prop where
  kinds : s.world.KeepsKinds s'.world
  nodes : ∀ e ∈ s.nodes, e ∈ s'.nodes
  grows : p.Grows p'
  lists : ∀ k, p k = some .children → s'.world.objects[k]? = s.world.objects[k]?
  whole : ∀ i tag, (i, tag) ∈ s.nodes → s.Whole (.ref i) → s'.Whole (.ref i)

variable {s s₁ s' : Stock} {p p₁ p' : Plan} {i j k : Nat} {tag : Tag} {v : Value} {n : Node Value}

theorem planned_ofWorld (w : World) : (ofWorld w).Planned fun _ => none where
  fits _ _ hr := nomatch hr
  nodes _ _ := ⟨nofun, nofun⟩
  own _ _ hr := nomatch hr

theorem Advances.refl (s : Stock) (p : Plan) : Advances s s p p where
  kinds := (World.Retains.keepsKinds (.refl _ s.world))
  nodes _ he := he
  grows _ _ hr := hr
  lists _ _ := rfl
  whole _ _ _ hwhole := hwhole

theorem Advances.trans (h : Advances s s₁ p p₁) (h' : Advances s₁ s' p₁ p') :
    Advances s s' p p' where
  kinds := h.kinds.trans h'.kinds
  nodes e he := h'.nodes e (h.nodes e he)
  grows := h.grows.trans h'.grows
  lists k hk := (h'.lists k (h.grows k _ hk)).trans (h.lists k hk)
  whole i tag hi hwhole := h'.whole i tag (h.nodes _ hi) (h.whole i tag hi hwhole)

/-! ## Whole trees -/

/-- What is below a node of a whole tree is whole. -/
theorem Whole.below (h : s.Whole (.ref i)) (hn : s.world.objects[i]? = some (.node n))
    {vs : List Value} (hvs : s.world.HasList n.children vs) (hv : v ∈ vs) : s.Whole v := by
  obtain ⟨k, hk⟩ := List.mem_iff_getElem?.mp hv
  intro path j hat
  exact h (k :: path) j (.under ⟨rfl, n, hn, hvs.itemsHeld_eq.symm⟩ hk hat)

/-- A node of a whole tree is followed itself. -/
theorem Whole.exists_tag (h : s.Whole (.ref i)) (hn : s.world.objects[i]? = some (.node n)) :
    ∃ tag, (i, tag) ∈ s.nodes :=
  h [] i (.here ⟨rfl, n, hn, rfl⟩)

/-- A node that is followed is whole if its children are. -/
theorem whole_of_children (hi : (i, tag) ∈ s.nodes) (hn : s.world.objects[i]? = some (.node n))
    {vs : List Value} (hvs : s.world.HasList n.children vs) (h : ∀ v ∈ vs, s.Whole v) :
    s.Whole (.ref i) := by
  intro path j hat
  cases hat with
  | here hparts =>
    obtain ⟨hj, -⟩ := hparts
    obtain rfl := Value.ref.inj hj
    exact ⟨tag, hi⟩
  | under hparts hk hat =>
    obtain ⟨hj, n', hn', rfl⟩ := hparts
    obtain rfl := Value.ref.inj hj
    obtain rfl := Object.node.inj (Option.some.inj (hn.symm.trans hn'))
    rw [hvs.itemsHeld_eq] at hk
    exact h _ (List.mem_of_getElem? hk) _ j hat

/-- What is no node has no nodes below it. -/
theorem whole_of_not_node (h : ∀ i n, v = .ref i → s.world.objects[i]? ≠ some (.node n)) :
    s.Whole v := by
  intro path i hat
  obtain ⟨j, n, hv, hn⟩ := hat.exists_node
  exact absurd hn (h j n hv)

/-- A node is followed later on, and its children may have been held before. -/
def Refills (s s' : Stock) (i : Nat) : Prop :=
  (∃ tag, (i, tag) ∈ s'.nodes) ∧ ∃ n vs, s'.world.objects[i]? = some (.node n) ∧
    s'.world.HasList n.children vs ∧ ∀ v ∈ vs, s.MayHold v

/-- Where whole trees are still held or filled anew, what is filled is whole. -/
theorem whole_of_refills (hkinds : s.world.KeepsKinds s'.world)
    (hwhole : ∀ i tag, (i, tag) ∈ s.nodes → s.Whole (.ref i) → s.Refills s' i)
    (hi : s.Refills s' i) : s'.Whole (.ref i) := by
  intro path j hat
  generalize hv : Value.ref i = v at hat
  induction hat generalizing i with
  | here hparts =>
    obtain ⟨rfl, -⟩ := hparts
    obtain rfl := Value.ref.inj hv
    exact hi.1
  | under hparts hk hat ih =>
    obtain ⟨rfl, n, hn, rfl⟩ := hparts
    obtain rfl := Value.ref.inj hv
    obtain ⟨-, n', vs, hn', hvs, hhold⟩ := hi
    obtain rfl := Object.node.inj (Option.some.inj (hn.symm.trans hn'))
    rw [hvs.itemsHeld_eq] at hk
    have hc := hhold _ (List.mem_of_getElem? hk)
    obtain ⟨k, m, rfl, hm⟩ := hat.exists_node
    -- a node among the children was one before
    obtain ⟨m', hm'⟩ := hkinds.node k m (hc.has k rfl).2 hm
    obtain ⟨tag, htag⟩ := hc.whole.exists_tag hm'
    exact ih (hwhole k tag htag hc.whole) rfl

/-! ## From one stock to the next -/

theorem Planned.node (h : s.Planned p) (hi : (i, tag) ∈ s.nodes) : p i = some (.node tag) :=
  (h.nodes i tag).mpr hi

/-- The children of a node in a whole tree may be held. -/
theorem Planned.exists_mayHold (h : s.Planned p) (hi : (i, tag) ∈ s.nodes)
    (hwhole : s.Whole (.ref i)) : ∃ n l vs, s.world.objects[i]? = some (.node n) ∧
      n.children = .ref l ∧ p l = some .children ∧ s.world.objects[l]? = some (.list vs) ∧
      ∀ v ∈ vs, s.MayHold v := by
  obtain ⟨n, hn, houtlines⟩ := h.fits.exists_node (h.node hi)
  obtain ⟨l, hl, hr⟩ := houtlines.children
  obtain ⟨vs, hvs, hitems⟩ := h.fits.exists_children houtlines.children
  have hlist := hvs
  obtain ⟨l', hl', hget⟩ := hvs
  obtain rfl := Value.ref.inj (hl.symm.trans hl')
  exact ⟨n, l, vs, hn, hl, hr, hget, fun v hv =>
    ⟨(hitems v hv).1, (hitems v hv).2, hwhole.below hn hlist hv⟩⟩

/--
What is kept after a step: all lists of children, and all nodes but those which were given children
that may be held.
-/
theorem Planned.advances (h : s.Planned p) (hkinds : s.world.KeepsKinds s'.world)
    (hnodes : ∀ e ∈ s.nodes, e ∈ s'.nodes) (hgrows : p.Grows p')
    (hlists : ∀ k, p k = some .children → s'.world.objects[k]? = s.world.objects[k]?)
    (hkept : ∀ i tag, (i, tag) ∈ s.nodes →
      s'.world.objects[i]? = s.world.objects[i]? ∨ s.Refills s' i) :
    Advances s s' p p' ∧ ∀ i, s.Refills s' i → s'.Whole (.ref i) := by
  have hrefills : ∀ i tag, (i, tag) ∈ s.nodes → s.Whole (.ref i) → s.Refills s' i := by
    intro i tag hi hwhole
    rcases hkept i tag hi with hsame | hrefills
    · obtain ⟨n, l, vs, hn, hl, hr, hvs, hhold⟩ := h.exists_mayHold hi hwhole
      exact ⟨⟨tag, hnodes _ hi⟩, n, vs, hsame.trans hn, ⟨l, hl, (hlists l hr).trans hvs⟩, hhold⟩
    · exact hrefills
  have hwhole : ∀ i, s.Refills s' i → s'.Whole (.ref i) :=
    fun i hi => whole_of_refills hkinds hrefills hi
  exact ⟨⟨hkinds, hnodes, hgrows, hlists, fun i tag hi hold => hwhole i (hrefills i tag hi hold)⟩,
    hwhole⟩

variable {w w₁ : World} {more : List (Nat × Tag)}

/--
What is planned after a change: all that has a role has it as before and is the same, or suits it,
and was made since if it has it newly.
-/
theorem Planned.after (h : s.Planned p) (hkinds : s.world.KeepsKinds w) (hgrows : p.Grows p')
    (hnodes : ∀ i tag, p' i = some (.node tag) ↔ (i, tag) ∈ more ++ s.nodes)
    (hroles : ∀ k r, p' k = some r → p k = some r ∧ w.objects[k]? = s.world.objects[k]? ∨
      (p k = some r ∨ s.world.objects.size ≤ k) ∧ ∃ o, w.objects[k]? = some o ∧ p'.Suits w r o)
    (hlists : ∀ k, p k = some .children → w.objects[k]? = s.world.objects[k]?)
    (hkept : ∀ i tag, (i, tag) ∈ s.nodes →
      w.objects[i]? = s.world.objects[i]? ∨ s.Refills (s.after w more) i) :
    (s.after w more).Planned p' ∧ Advances s (s.after w more) p p' ∧
      ∀ i, s.Refills (s.after w more) i → (s.after w more).Whole (.ref i) := by
  refine ⟨⟨?_, hnodes, fun k r hr => ?_⟩, h.advances hkinds (fun e he => ?_) hgrows hlists hkept⟩
  · exact h.fits.of_changed hgrows hkinds fun k r hr => (hroles k r hr).imp_right (·.2)
  · rcases hroles k r hr with ⟨hold, -⟩ | ⟨hold | hle, o, ho, -⟩
    · exact .inl (h.own k r hold)
    · exact .inl (h.own k r hold)
    · exact .inr ⟨hle, World.lt_size ho⟩
  · exact List.mem_append_right more he

/-- What is planned after objects were made. -/
theorem Planned.made (h : s.Planned p) (hretains : s.world.Retains 0 w) (hgrows : p.Grows p')
    (hnodes : ∀ i tag, p' i = some (.node tag) ↔ (i, tag) ∈ more ++ s.nodes)
    (hroles : ∀ k r, p' k = some r → p k = some r ∨
      s.world.objects.size ≤ k ∧ ∃ o, w.objects[k]? = some o ∧ p'.Suits w r o) :
    (s.after w more).Planned p' ∧ Advances s (s.after w more) p p' ∧
      ∀ i, s.Refills (s.after w more) i → (s.after w more).Whole (.ref i) := by
  have hsame : ∀ k r, p k = some r → w.objects[k]? = s.world.objects[k]? := by
    intro k r hr
    obtain ⟨o, ho, -⟩ := h.fits k r hr
    rw [ho, hretains.kept (Nat.zero_le k) ho]
  refine h.after hretains.keepsKinds hgrows hnodes (fun k r hr => ?_) (fun k hk => hsame k _ hk)
    fun i tag hi => .inl (hsame i _ (h.node hi))
  exact (hroles k r hr).imp (fun hold => ⟨hold, hsame k r hold⟩) fun hnew => ⟨.inr hnew.1, hnew.2⟩

/-- What is planned after an object with a role, but for a list of children, was replaced. -/
theorem Planned.replaced (h : s.Planned p) (hretains : s.world.Retains 0 w) (hgrows : p.Grows p')
    (hnodes : ∀ i tag, p' i = some (.node tag) → p i = some (.node tag)) {r : Role}
    {o o' : Object Value} (hk : p k = some r) (hr : r ≠ .children)
    (ho : s.world.objects[k]? = some o) (hremains : World.Remains o o')
    (hsuits : p'.Suits (w.replace k o') r o')
    (hroles : ∀ j r', p' j = some r' → p j = some r' ∨ s.world.objects.size ≤ j ∧
      ∃ o, (w.replace k o').objects[j]? = some o ∧ p'.Suits (w.replace k o') r' o)
    (hrefills : ∀ tag, r = .node tag → s.Refills (s.after (w.replace k o') []) k) :
    (s.after (w.replace k o') []).Planned p' ∧ Advances s (s.after (w.replace k o') []) p p' ∧
      ∀ i, s.Refills (s.after (w.replace k o') []) i →
        (s.after (w.replace k o') []).Whole (.ref i) := by
  have ho₁ := hretains.kept (Nat.zero_le k) ho
  have hsame : ∀ j r', j ≠ k → p j = some r' →
      (w.replace k o').objects[j]? = s.world.objects[j]? := by
    intro j r' hne hj
    obtain ⟨oj, hoj, -⟩ := h.fits j r' hj
    rw [World.get_replace_ne hne, hoj, hretains.kept (Nat.zero_le j) hoj]
  have hself : ∀ r', p k = some r' → r' = r := fun r' hr' => Option.some.inj (hr'.symm.trans hk)
  have hmore : ∀ i tag, p' i = some (.node tag) ↔ (i, tag) ∈ [] ++ s.nodes := fun i tag =>
    ⟨fun hi => (h.nodes i tag).mp (hnodes i tag hi), fun hi => hgrows i _ (h.node hi)⟩
  refine h.after (hretains.keepsKinds.trans (World.keepsKinds_replace ho₁ hremains)) hgrows
    hmore (fun j r' hj => ?_) (fun j hj => ?_) fun i tag hi => ?_
  · rcases hroles j r' hj with hold | ⟨hle, hnew⟩
    · by_cases hjk : j = k
      · subst hjk
        obtain rfl := hself r' hold
        exact .inr ⟨.inl hold, o', World.get_replace_self (World.lt_size ho₁), hsuits⟩
      · exact .inl ⟨hold, hsame j r' hjk hold⟩
    · exact .inr ⟨.inr hle, hnew⟩
  · refine hsame j _ (fun hjk => ?_) hj
    subst hjk
    exact hr (hself _ hj).symm
  · by_cases hik : i = k
    · subst hik
      exact .inr (hrefills tag (hself _ (h.node hi)).symm)
    · exact .inl (hsame i _ hik (h.node hi))

/-- What is planned after a list was made for something, and put into an object with a role. -/
theorem Planned.relisted (h : s.Planned p) {r₀ r : Role} {items : List Value} {o o' : Object Value}
    (hitems : p.Suits s.world r₀ (.list items)) (hk : p k = some r) (hr : r ≠ .children)
    (ho : s.world.objects[k]? = some o) (hremains : World.Remains o o')
    (hsuits : (p.set s.world.objects.size r₀).Suits
      ((s.world.add (.list items)).replace k o') r o')
    (hrefills : ∀ tag, r = .node tag →
      s.Refills (s.after ((s.world.add (.list items)).replace k o') []) k) :
    (s.after ((s.world.add (.list items)).replace k o') []).Planned
        (p.set s.world.objects.size r₀) ∧
      Advances s (s.after ((s.world.add (.list items)).replace k o') []) p
        (p.set s.world.objects.size r₀) ∧
      ∀ i, s.Refills (s.after ((s.world.add (.list items)).replace k o') []) i →
        (s.after ((s.world.add (.list items)).replace k o') []).Whole (.ref i) := by
  have hnone : p s.world.objects.size = none := h.fits.eq_none (Nat.le_refl _)
  have hgrows : p.Grows (p.set s.world.objects.size r₀) := Plan.grows_set hnone r₀
  have hkinds : s.world.KeepsKinds ((s.world.add (.list items)).replace k o') :=
    (World.Retains.keepsKinds World.changesOnly_add).trans
      (World.keepsKinds_replace (World.get_add ho) hremains)
  have hne : s.world.objects.size ≠ k := Nat.ne_of_gt (World.lt_size ho)
  refine h.replaced World.changesOnly_add hgrows (fun j tag hj => ?_) hk hr ho hremains hsuits
    (fun j r' hj => ?_) hrefills
  · rcases (Plan.set_eq_some_iff hnone).mp hj with ⟨-, rfl⟩ | hold
    · cases hitems
    · exact hold
  · rcases (Plan.set_eq_some_iff hnone).mp hj with ⟨rfl, rfl⟩ | hold
    · refine .inr ⟨Nat.le_refl _, .list items, ?_, hitems.mono hgrows hkinds⟩
      rw [World.get_replace_ne hne, World.get_add_new]
    · exact .inl hold

/-! ## One step -/

/-- A constructor makes a node that fits. -/
theorem Planned.exists_build (h : s.Planned p) {x : Operation Value} {a : Arguments}
    (call : s.world.Calls x tag a)
    (given : s.world.HasAll a.one ∧ s.world.HasAll a.two ∧ s.world.HasAll a.three)
    (run : x.runIn s.world = (.ok (.ref i), w)) (made : w.objects[i]? = some (.node n)) :
    ∃ p', (s.after w [(i, tag)]).Planned p' ∧ Advances s (s.after w [(i, tag)]) p p' := by
  obtain ⟨w₀, hext, hrun⟩ := call.exists_construct run made
  obtain ⟨d, content, children, isVoid, hname, hvoid, hflag, hdescribe, hi, rfl⟩ :=
    exists_named_of_construct hrun
  obtain rfl := Value.ref.inj hi
  have hnone : ∀ k, w₀.objects.size ≤ k → p k = none := fun k hk =>
    h.fits.eq_none (Nat.le_trans hext.size_le hk)
  have hfits₀ : p.Fits w₀ := h.fits.of_changed (fun _ _ hr => hr)
    (World.Retains.keepsKinds hext.changesOnly) fun k r hr => by
      obtain ⟨o, ho, -⟩ := h.fits k r hr
      exact .inl ⟨hr, by rw [ho, hext.kept ho]⟩
  have hretains : s.world.Retains 0
      (w₀.addAll (d.made w₀.objects.size (.text tag.name) isVoid content children)) :=
    hext.changesOnly.trans AttributeSet.extends_made.changesOnly
  have hthere : w₀.HasAll a.one ∧ w₀.HasAll a.two ∧ w₀.HasAll a.three :=
    ⟨given.1.extend hext, given.2.1.extend hext, given.2.2.extend hext⟩
  have hfits : (d.planned w₀.objects.size tag p).Fits
      (w₀.addAll (d.made w₀.objects.size (.text tag.name) isVoid content children)) :=
    AttributeSet.fits_planned hfits₀ hname hvoid hflag (separates_of_describe hdescribe)
      (World.filled_of_describe hdescribe) fun v hv =>
        (World.child_of_describe hdescribe v hv).imp_right fun hgiven =>
          ⟨World.has_of_mem_childrenGiven hthere hgiven.1, hgiven.2⟩
  have hnodes : ∀ j tag', d.planned w₀.objects.size tag p j = some (.node tag') ↔
      (j, tag') ∈ [(d.listenersAt w₀.objects.size + 3, tag)] ++ s.nodes := by
    intro j tag'
    rw [AttributeSet.planned_eq_node_iff hnone, h.nodes, List.singleton_append, List.mem_cons,
      Prod.mk.injEq]
  obtain ⟨hplanned, hadvances, -⟩ := h.made hretains (AttributeSet.grows_planned hnone) hnodes
    fun k r hr => by
      by_cases hlt : k < s.world.objects.size
      · rw [AttributeSet.planned_of_lt (Nat.lt_of_lt_of_le hlt hext.size_le)] at hr
        exact .inl hr
      · exact .inr ⟨Nat.le_of_not_lt hlt, hfits k r hr⟩
  exact ⟨_, hplanned, hadvances⟩

/-- The stock after a node was frozen. -/
def frozen (s : Stock) (n : Node Value) (tag : Tag) : Stock :=
  s.after (s.world.withFrozenCopy n) [(s.world.objects.size + 1, tag)]

/-- A copy of a node fits, and is whole as it has no children. -/
theorem Planned.exists_freeze (h : s.Planned p) (hi : (i, tag) ∈ s.nodes)
    (hn : s.world.objects[i]? = some (.node n)) :
    ∃ p', (s.frozen n tag).Planned p' ∧ Advances s (s.frozen n tag) p p' ∧
      (s.frozen n tag).Whole (.ref (s.world.objects.size + 1)) := by
  have houtlines := h.fits.outlines (h.node hi) hn
  have hgrows : p.Grows (p.copied s.world.objects.size tag) :=
    Plan.grows_copied fun _ => h.fits.eq_none
  have hroles : ∀ j r, p.copied s.world.objects.size tag j = some r ↔
      (j = s.world.objects.size + 1 ∧ r = .node tag) ∨
        (j = s.world.objects.size ∧ r = .children) ∨ p j = some r :=
    fun _ _ => Plan.copied_eq_some_iff fun _ => h.fits.eq_none
  have hnodes : ∀ j tag', p.copied s.world.objects.size tag j = some (.node tag') ↔
      (j, tag') ∈ [(s.world.objects.size + 1, tag)] ++ s.nodes := by
    intro j tag'
    rw [hroles, h.nodes]
    simp
  have hchildren : p.copied s.world.objects.size tag s.world.objects.size = some .children :=
    (hroles _ _).mpr (.inr (.inl ⟨rfl, rfl⟩))
  obtain ⟨hplanned, hadvances, hwhole⟩ := h.made (World.retains_withFrozenCopy s.world n) hgrows
    hnodes fun k r hr => by
      rcases (hroles k r).mp hr with ⟨rfl, rfl⟩ | ⟨rfl, rfl⟩ | hold
      · exact .inr ⟨Nat.le_succ _, _, World.get_withFrozenCopy_node,
          .node ((houtlines.mono hgrows).withChildren ⟨_, rfl, hchildren⟩)⟩
      · exact .inr ⟨Nat.le_refl _, _, World.get_withFrozenCopy_list, .children nofun⟩
      · exact .inl hold
  refine ⟨_, hplanned, hadvances, hwhole _ ⟨⟨tag, List.mem_cons_self⟩, _, [],
    World.get_withFrozenCopy_node, ⟨_, rfl, World.get_withFrozenCopy_list⟩, ?_⟩⟩
  exact fun v hv => nomatch hv

/-- The stock after a node was given other children. -/
def adopted (s : Stock) (i : Nat) (n : Node Value) (vs : List Value) : Stock :=
  s.after ((s.world.add (.list vs)).replace i
    (.node { n with children := .ref s.world.objects.size })) []

/-- A node with other children fits, and is whole if these are. -/
theorem Planned.exists_adopt (h : s.Planned p) (hi : (i, tag) ∈ s.nodes)
    (hn : s.world.objects[i]? = some (.node n)) {vs : List Value} (hvs : ∀ v ∈ vs, s.MayHold v) :
    ∃ p', (s.adopted i n vs).Planned p' ∧ Advances s (s.adopted i n vs) p p' ∧
      (s.adopted i n vs).Whole (.ref i) := by
  have hnone : p s.world.objects.size = none := h.fits.eq_none (Nat.le_refl _)
  have hne : s.world.objects.size ≠ i := Nat.ne_of_gt (World.lt_size hn)
  have hlist : (s.adopted i n vs).world.objects[s.world.objects.size]? = some (.list vs) := by
    rw [adopted, Stock.after, World.get_replace_ne hne, World.get_add_new]
  have hnode : (s.adopted i n vs).world.objects[i]? =
      some (.node { n with children := .ref s.world.objects.size }) :=
    World.get_replace_self (World.lt_size (World.get_add hn))
  have hrefills : s.Refills (s.adopted i n vs) i :=
    ⟨⟨tag, hi⟩, _, vs, hnode, ⟨_, rfl, hlist⟩, hvs⟩
  have houtlines := ((h.fits.outlines (h.node hi) hn).mono (Plan.grows_set hnone _)).withChildren
    ⟨_, rfl, Plan.set_self p _ .children⟩
  obtain ⟨hplanned, hadvances, hwhole⟩ := h.relisted
    (.children fun v hv => ⟨(hvs v hv).has, (hvs v hv).text⟩) (h.node hi) nofun hn (.node n _)
    (.node houtlines) fun _ _ => hrefills
  exact ⟨_, hplanned, hadvances, hwhole i hrefills⟩

/-- A node that is listened on fits. -/
theorem Planned.exists_listen (h : s.Planned p) (hi : (i, tag) ∈ s.nodes)
    (hn : s.world.objects[i]? = some (.node n)) {event listener : Value}
    (hlistener : s.world.callable listener = true) :
    ∃ p', (s.after ((appendUnder n.listeners event listener).runIn s.world).2 []).Planned p' ∧
      Advances s (s.after ((appendUnder n.listeners event listener).runIn s.world).2 []) p p' := by
  obtain ⟨es, ⟨l, hl, hes⟩, hcallees⟩ :=
    h.fits.exists_listeners (h.fits.outlines (h.node hi) hn).listeners
  have hrole : p l = some .listeners := by
    obtain ⟨l', hl', hrole⟩ := (h.fits.outlines (h.node hi) hn).listeners
    obtain rfl := Value.ref.inj (hl.symm.trans hl')
    exact hrole
  rcases cases_appendUnder n.listeners event listener s.world with
    hmade | ⟨l', es', hl', hes', ⟨e, he, hrun⟩ | hrun⟩
  · have hnodes : ∀ i tag, p i = some (.node tag) ↔ (i, tag) ∈ [] ++ s.nodes := h.nodes
    obtain ⟨hplanned, hadvances, -⟩ := h.made hmade.changesOnly (fun _ _ hr => hr) hnodes
      fun _ _ hr => .inl hr
    exact ⟨p, hplanned, hadvances⟩
  · obtain rfl := Value.ref.inj (hl.symm.trans hl')
    obtain rfl := Object.map.inj (Option.some.inj (hes.symm.trans hes'))
    obtain ⟨c, hc, hcallee⟩ := hcallees e he
    obtain ⟨fns, ⟨c', hc', hfns⟩, hne, hall⟩ := h.fits.exists_callees (hcallees e he)
    obtain rfl := Value.ref.inj (hc.symm.trans hc')
    have hkinds := World.keepsKinds_replace hfns (.list fns (fns ++ [listener]))
    have hsuits : p.Suits (s.world.replace c (.list (fns ++ [listener]))) .callees
        (.list (fns ++ [listener])) := by
      refine .callees (by simp) (List.forall_mem_append.mpr ⟨fun f hf => ?_, ?_⟩)
      · exact hkinds.callable f (hall f hf)
      · exact List.forall_mem_singleton.mpr (hkinds.callable listener hlistener)
    obtain ⟨hplanned, hadvances, -⟩ := h.replaced (.refl _ s.world) (fun _ _ hr => hr)
      (fun _ _ hr => hr) hcallee nofun hfns (.list fns _) hsuits (fun _ _ hr => .inl hr) nofun
    rw [hrun, hc, runIn_append hfns]
    exact ⟨p, hplanned, hadvances⟩
  · obtain rfl := Value.ref.inj (hl.symm.trans hl')
    obtain rfl := Object.map.inj (Option.some.inj (hes.symm.trans hes'))
    have hnone : p s.world.objects.size = none := h.fits.eq_none (Nat.le_refl _)
    have hlisteners : ∀ e ∈ es ++ [(event, .ref s.world.objects.size)],
        (p.set s.world.objects.size .callees).Gives e.2 .callees := by
      refine List.forall_mem_append.mpr ⟨fun e he => ?_, ?_⟩
      · exact (hcallees e he).mono (Plan.grows_set hnone _)
      · exact List.forall_mem_singleton.mpr ⟨_, rfl, Plan.set_self p _ _⟩
    obtain ⟨hplanned, hadvances, -⟩ := h.relisted
      (.callees (List.cons_ne_nil listener []) (List.forall_mem_singleton.mpr hlistener)) hrole
      nofun hes (.map es _) (.listeners hlisteners) nofun
    rw [hrun]
    exact ⟨_, hplanned, hadvances⟩

/-- Where what was made with the nodes is left as it is, the plan is the same. -/
theorem Planned.elsewhere (h : s.Planned p) (changes : s.world.ChangesOnly (fun k => ¬ s.own k) w)
    (kinds : s.world.KeepsKinds w) :
    (s.into w).Planned p ∧ Advances s (s.into w) p p := by
  have hsame : ∀ k r, p k = some r → w.objects[k]? = s.world.objects[k]? := by
    intro k r hr
    obtain ⟨o, ho, -⟩ := h.fits k r hr
    rw [ho, changes.spared ho (not_not_intro (h.own k r hr))]
  have hfits : p.Fits w := h.fits.of_changed (fun _ _ hr => hr) kinds fun k r hr =>
    .inl ⟨hr, hsame k r hr⟩
  have hkinds : s.world.KeepsKinds (s.into w).world := kinds
  obtain ⟨hadvances, -⟩ := h.advances hkinds (fun _ he => he) (fun _ _ hr => hr)
    (fun k hk => hsame k _ hk) fun i tag hi => .inl (hsame i _ (h.node hi))
  exact ⟨⟨hfits, h.nodes, h.own⟩, hadvances⟩

/-- Whatever is done, the objects fit a plan, and what was there is kept. -/
theorem Planned.exists_step (h : s.Planned p) (step : Step s s') :
    ∃ p', s'.Planned p' ∧ Advances s s' p p' := by
  cases step with
  | build call given run made => exact h.exists_build call given run made
  | @listen i tag event listener hi hlistener =>
    obtain ⟨n, hn, -⟩ := h.fits.exists_node (h.node hi)
    have hrun : ((on (.ref i) event listener).runIn s.world).2 =
        ((appendUnder n.listeners event listener).runIn s.world).2 := by
      rw [on, runIn_bind_ok (runIn_member hn rfl rfl), runIn_bind]
      rcases (appendUnder n.listeners event listener).runIn s.world with ⟨_ | _, w⟩ <;> rfl
    rw [hrun]
    exact h.exists_listen hi hn hlistener
  | freeze hi run =>
    obtain ⟨n, hn, houtlines⟩ := h.fits.exists_node (h.node hi)
    rw [freeze, runIn_bind_ok (runIn_objectOf hn)] at run
    obtain ⟨hj, rfl⟩ := Prod.mk.inj ((runIn_freezeNode houtlines.freezable s.world).symm.trans run)
    obtain rfl := Value.ref.inj (Except.ok.inj hj)
    obtain ⟨p', hplanned, hadvances, -⟩ := h.exists_freeze hi hn
    exact ⟨p', hplanned, hadvances⟩
  | adopt hi hvs =>
    obtain ⟨n, hn, -⟩ := h.fits.exists_node (h.node hi)
    rw [runIn_replaceChildren hn]
    obtain ⟨p', hplanned, hadvances, -⟩ := h.exists_adopt hi hn hvs
    exact ⟨p', hplanned, hadvances⟩
  | elsewhere changes kinds => exact ⟨p, h.elsewhere changes kinds⟩

/-- After any number of steps the objects fit a plan, and what was there at first is kept. -/
theorem Planned.exists_run (h : s.Planned p) (run : Run s s') :
    ∃ p', s'.Planned p' ∧ Advances s s' p p' := by
  induction run with
  | refl => exact ⟨p, h, .refl s p⟩
  | tail _ step ih =>
    obtain ⟨p₁, hplanned, hadvances⟩ := ih
    obtain ⟨p', hplanned', hadvances'⟩ := hplanned.exists_step step
    exact ⟨p', hplanned', hadvances.trans hadvances'⟩

end Stock

end Markup
