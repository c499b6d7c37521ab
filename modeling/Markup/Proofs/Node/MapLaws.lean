import Markup.Node.Visitor
import Markup.Proofs.Node.Mapping
import Markup.Proofs.Node.Walkers

/-!
# Traversal obeys the laws of a map

Two trees of the same form are equal where the nodes have the same features
(`World.Spans.eq_of_corresponds`).  So a traversal that hands every node back makes an equal tree
without any node of the first one, and two traversals with functions, one after the other, make the
same as one traversal with both (`traverse_maps`).  The laws need nodes of which no field is missing
that a new node would find for itself, fields that equal themselves, and functions that make no new
object which is told by its identity (`traverse_fails_to_map`).
-/

namespace Markup

/-! ## Equal trees -/

/-- Nodes are equal where their names, their other fields and their children are. -/
theorem Term.fieldsEq_of_traits {m n : Node Term} (hname : m.name.eq n.name = true)
    (htraits : List.Forall₂ (fun s t => Term.eq s t = true) m.traits n.traits)
    (hchildren : m.children.eq n.children = true) : Term.fieldsEq m n = true := by
  cases m
  simp only [Node.traits, List.forall₂_cons] at htraits
  simp [Term.fieldsEq, hname, htraits, hchildren]

namespace World

/-- There are nodes with the same features. -/
def Similar (w₀ w : World) (i j : Nat) : Prop := ∃ h, w₀.FeaturesAt w i h ∧ w₀.FeaturesAt w j h

variable {w₀ w : World} {p p' : Nat → Prop} {v v' : Value} {t t' : Skeleton} {n depth : Nat}

/-- What was made since goes down only so far in a tree of nodes with features. -/
theorem Spans.exists_endsBy (h : w.Spans p v t)
    (hhas : ∀ i ∈ t.numbers, ∃ h, w₀.FeaturesAt w i h) :
    ∃ n, w.EndsBy w₀.objects.size n v := by
  induction t generalizing v with
  | text s =>
    cases h
    exact ⟨0, endsBy_atom _⟩
  | node i ts ih =>
    rw [Skeleton.numbers, List.forall_mem_cons] at hhas
    cases h with
    | @node _ l n vs _ hn _ _ hchildren hlist _ hsub =>
      obtain ⟨⟨h, n', hn', hh⟩, hbelow⟩ := hhas
      rw [hn, Option.some.injEq, Object.node.injEq] at hn'
      subst hn'
      have hlast : ∃ k, w.EndsBy w₀.objects.size k n.children := by
        rw [hchildren]
        refine exists_endsBy_of_shown hlist fun c hc => ?_
        obtain ⟨t, ht, hspans⟩ := exists_mem_of_forall₂ hsub.flip hc
        exact ih t ht hspans fun j hj => hbelow j (Skeleton.mem_numbersOf.mpr ⟨t, ht, hj⟩)
      have htraits : ∀ v ∈ n.traits, ∃ k, w.EndsBy w₀.objects.size k v := by
        intro v hv
        obtain ⟨s, -, hlike⟩ := exists_mem_of_forall₂ hh.like.flip hv
        exact hlike.exists_endsBy
      refine exists_endsBy_of_shown hn fun v hv => ?_
      rcases List.mem_cons.mp hv with rfl | hv
      · exact ⟨0, hh.name ▸ endsBy_atom _⟩
      · rcases List.mem_append.mp (show v ∈ n.traits ++ [n.children] from hv) with hv | hv
        · exact htraits v hv
        · rw [List.mem_singleton.mp hv]
          exact hlast

/-- Nodes are equal where they have the same features and equal children. -/
theorem eq_of_features {i j k : Nat} {m m' : Node Value} {h : Features}
    (hkeep : w₀.Retains 0 w) (hm : w.objects[i]? = some (.node m))
    (hm' : w.objects[j]? = some (.node m')) (hh : w₀.HasFeatures w m h)
    (hh' : w₀.HasFeatures w m' h) (hends : ∀ v ∈ m.traits, w.EndsBy w₀.objects.size k v)
    (hle : k ≤ depth)
    (hchildren : (w.unfold true depth m.children).eq (w.unfold true depth m'.children) = true) :
    (w.unfold true (depth + 1) (.ref i)).eq (w.unfold true (depth + 1) (.ref j)) = true := by
  rw [unfold_ref hm, unfold_ref hm']
  show Term.eq (.node i (m.map (w.unfold true depth))) (.node j (m'.map (w.unfold true depth))) =
    true
  rw [Term.eq]
  refine Term.fieldsEq_of_traits ?_ ?_ hchildren
  · show (w.unfold true depth m.name).eq (w.unfold true depth m'.name) = true
    rw [hh.name, hh'.name, unfold_atom, Term.eq, Atom.eq_self]
  · show List.Forall₂ _ (m.traits.map (w.unfold true depth)) (m'.traits.map (w.unfold true depth))
    rw [List.forall₂_map_left_iff, List.forall₂_map_right_iff]
    refine forall₂_join hh.like hh'.like fun v hv v' s hs hlike hlike' => ?_
    exact hlike.eq hlike' hkeep (fun i hi => hh.steady i (hi ▸ hs)) (hends v hv) hle

/-- Trees of the same form are equal where the nodes have the same features. -/
theorem Spans.eq_of_corresponds (hkeep : w₀.Retains 0 w) (h : w.Spans p v t)
    (h' : w.Spans p' v' t') (hsame : t.Corresponds (w₀.Similar w) t')
    (hnew : ∀ i, p i → w₀.objects.size ≤ i) (hends : w.EndsBy w₀.objects.size n v)
    (hle : n ≤ depth) : (w.unfold true depth v).eq (w.unfold true depth v') = true := by
  induction t generalizing v v' t' n depth with
  | text s =>
    cases hsame
    cases h
    cases h'
    rw [unfold_atom, Term.eq, Atom.eq_self]
  | node i ts ih =>
    cases hsame with
    | @node _ j _ us hij hsub =>
      cases h with
      | @node _ l m vs _ hm _ hi hl hvs hpl hspans =>
        cases h' with
        | @node _ l' m' vs' _ hm' _ _ hl' hvs' _ hspans' =>
          obtain ⟨h, ⟨n₁, hn₁, hh⟩, n₂, hn₂, hh'⟩ := hij
          rw [hm, Option.some.injEq, Object.node.injEq] at hn₁
          rw [hm', Option.some.injEq, Object.node.injEq] at hn₂
          subst hn₁ hn₂
          obtain ⟨k, rfl, hparts⟩ := hends.shown (hnew _ hi) hm
          obtain ⟨depth, rfl⟩ := Nat.exists_eq_add_of_le' (Nat.le_trans (Nat.succ_pos k) hle)
          replace hle := Nat.le_of_succ_le_succ hle
          have htraits : ∀ v ∈ m.traits, w.EndsBy w₀.objects.size k v := fun v hv =>
            hparts v (List.mem_cons_of_mem _ (List.mem_append_left [m.children] hv))
          have hlist : w.EndsBy w₀.objects.size k (.ref l) :=
            hl ▸ hparts m.children (List.mem_append_right (m.name :: m.traits) (by simp))
          refine eq_of_features hkeep hm hm' hh hh' htraits hle ?_
          obtain ⟨k, rfl, hitems⟩ := hlist.shown (hnew _ hpl) hvs
          obtain ⟨depth, rfl⟩ := Nat.exists_eq_add_of_le' (Nat.le_trans (Nat.succ_pos k) hle)
          rw [hl, hl']
          refine eq_of_items .list hvs hvs' trivial ?_
          have hsteps : List.Forall₂ (fun v u => ∀ v', w.Spans p' v' u →
              (w.unfold true depth v).eq (w.unfold true depth v') = true) vs us :=
            forall₂_join hspans hsub.flip fun v hv u t ht h hcorresponds v' h' =>
              ih t ht h h' hcorresponds (hitems v hv) (Nat.le_of_succ_le_succ hle)
          exact forall₂_join hsteps hspans' fun v _ v' u _ h h' =>
            Bool.or_eq_true_iff.mpr (.inr (h v' h'))

/-- So they are when they are read. -/
theorem Spans.read_eq (hkeep : w₀.Retains 0 w) (h : w.Spans p v t) (h' : w.Spans p' v' t')
    (hsame : t.Corresponds (w₀.Similar w) t') (hnew : ∀ i, p i → w₀.objects.size ≤ i) :
    (w.read v).eq (w.read v') = true := by
  have hhas : ∀ i ∈ t.numbers, ∃ h, w₀.FeaturesAt w i h := fun i hi =>
    hsame.symm.of_mem_numbers (p := fun i => ∃ h, w₀.FeaturesAt w i h)
      (fun _ _ ⟨h, hh, _⟩ => ⟨h, hh⟩) hi
  obtain ⟨n, hends⟩ := h.exists_endsBy hhas
  exact h.eq_of_corresponds hkeep h' hsame hnew hends.bounded (Nat.le_succ _)

/-- Each field of a node is an atom or an object that equals itself. -/
def SteadyAt (w : World) (i : Nat) : Prop :=
  ∀ n, w.objects[i]? = some (.node n) → ∀ k, .ref k ∈ n.traits → w.Steady k

end World

/-! ## The laws -/

open Operation World

/--
Traversing a tree obeys the laws of a map.  Handing every node back makes an equal tree without any
node of the first one.  Traversing with one function and then with another makes a tree that equals
the one which a single traversal makes, and changes nothing that was there.
-/
structure MapLaws (w : World) (i : Nat) (t : Skeleton) (f g : Value → Operation Value) : Prop where
  identity : ∃ j w' u, (traverse pure (.ref i) : Operation Value).runIn w = (.ok (.ref j), w') ∧
    w.Retains 0 w' ∧ w'.Spans (fun _ => True) (.ref j) u ∧ (∀ k ∈ u.numbers, k ∉ t.numbers) ∧
    (w'.read (.ref j)).eq (w'.read (.ref i)) = true
  composition : ∃ j w₁ k w₂ l w₃, (traverse f (.ref i)).runIn w = (.ok (.ref j), w₁) ∧
    (traverse g (.ref j)).runIn w₁ = (.ok (.ref k), w₂) ∧
    (traverse (fun v => do g (← freeze (← f v))) (.ref i)).runIn w₂ = (.ok (.ref l), w₃) ∧
    (w₃.read (.ref k)).eq (w₃.read (.ref l)) = true ∧
    w.Retains 0 w₁ ∧ w.Retains 0 w₂ ∧ w.Retains 0 w₃

section Laws

variable {w : World} {kept : Nat → Prop} {i : Nat} {t : Skeleton} {f g : Value → Operation Value}
  {φ ψ : Features → Features}

theorem exists_equal_copy (htree : w.Spans kept (.ref i) t)
    (hhas : ∀ k ∈ t.numbers, ∃ h, w.FeaturesAt w k h) :
    ∃ j w' u, (traverse pure (.ref i) : Operation Value).runIn w = (.ok (.ref j), w') ∧
      w.Retains 0 w' ∧ w'.Spans (fun _ => True) (.ref j) u ∧ (∀ k ∈ u.numbers, k ∉ t.numbers) ∧
      (w'.read (.ref j)).eq (w'.read (.ref i)) = true := by
  obtain ⟨j, w', u, hrun, hkeep, hspans, hcorresponds⟩ :=
    exists_traverse (computes_pure w) (.refl _ w) htree hhas
  have hsame : u.Corresponds (w.Similar w') t := hcorresponds.symm.mono fun j i h => by
    obtain ⟨f, hf⟩ := h.has
    exact ⟨f, h.maps f hf, hf.keep hkeep.keepsFields⟩
  have hleft := htree.later hkeep (fun _ _ => Nat.zero_le _) fun _ hi => hi
  refine ⟨j, w', u, hrun, hkeep, hspans.later (.refl _ w') (fun _ _ => Nat.zero_le _)
    (fun _ _ => trivial), fun k hk hold => ?_, hspans.read_eq hkeep hleft hsame fun _ hi => hi⟩
  obtain ⟨n, hn, -⟩ := htree.exists_node hold
  have hnew := hspans.of_mem_numbers hk
  have hlt := lt_size hn
  omega

/--
The laws hold for a tree of which each field equals itself, and for functions of features.
-/
theorem traverse_maps (htree : w.Spans kept (.ref i) t) (hsteady : ∀ k ∈ t.numbers, w.SteadyAt k)
    (hf : Computes w f φ) (hg : Computes w g ψ) : MapLaws w i t f g := by
  have hhas : ∀ k ∈ t.numbers, ∃ h, w.FeaturesAt w k h := by
    intro k hk
    obtain ⟨n, hn, hfreezable⟩ := htree.exists_node hk
    obtain ⟨h, hh⟩ := exists_hasFeatures hfreezable (hsteady k hk n hn)
    exact ⟨h, n, hn, hh⟩
  refine ⟨exists_equal_copy htree hhas, ?_⟩
  obtain ⟨j, w₁, t₁, hrun₁, hkeep₁, hspans₁, hmapped₁⟩ :=
    exists_traverse hf (.refl _ w) htree hhas
  obtain ⟨k, w₂, t₂, hrun₂, hkeep₂, hspans₂, hmapped₂⟩ := exists_traverse hg hkeep₁ hspans₁
    fun _ hk => hmapped₁.of_mem_numbers (fun _ _ h => h.has_right) hk
  -- the tree is still there for the single traversal
  have hlater : w.Retains 0 w₂ := hkeep₁.trans hkeep₂
  obtain ⟨l, w₃, t₃, hrun₃, hkeep₃, hspans₃, hmapped₃⟩ := exists_traverse (hf.comp hg) hlater
    (htree.later hlater (fun _ _ => Nat.zero_le _) fun _ hi => hi) fun k hk => by
      obtain ⟨h, hh⟩ := hhas k hk
      exact ⟨h, hh.keep hlater.keepsFields⟩
  have htwice := hmapped₁.trans hmapped₂ fun _ _ _ h h' => h.trans h'
  have hsame : t₂.Corresponds (w.Similar w₃) t₃ := htwice.join hmapped₃ fun _ _ _ h h' => by
    obtain ⟨f, hf⟩ := h.has
    exact ⟨_, (h.maps f hf).keep hkeep₃.keepsFields, h'.maps f (hf.keep hlater.keepsFields)⟩
  have hleft := hspans₂.later hkeep₃ (fun _ _ => Nat.zero_le _) fun _ hi => hi
  exact ⟨j, w₁, k, w₂, l, w₃, hrun₁, hrun₂, hrun₃,
    hleft.read_eq (hlater.trans hkeep₃) hspans₃ hsame fun _ hi =>
      Nat.le_trans hkeep₁.size_le hi,
    hkeep₁, hlater, hlater.trans hkeep₃⟩

end Laws

/-! ### A visitor that wraps -/

/-- The features of a wrapping node: a new name, the flag and the attributes, and nothing else. -/
def Features.wrapped (h : Features) : Features where
  name := "x-" ++ h.name
  isVoid := h.isVoid
  id := .atom .none
  classes := .made .list []
  style := .atom .none
  listeners := .made (.map []) []
  attrs := h.attrs
  content := .atom (.text "")
  named := by simp
  isVoid_given := h.isVoid_given
  classes_given := by simp
  listeners_given := by simp
  attrs_given := h.attrs_given

/-- The wrapping node is made after its lost child and its new collections. -/
theorem runIn_wrapAt {w : World} {i : Nat} {n : Node Value} {tag : String}
    (hn : w.objects[i]? = some (.node n)) (hname : n.name = .text tag) (hvoid : n.isVoid ≠ .none)
    (hattrs : n.attrs ≠ .none) :
    (Visitor.wrapAt (.ref i)).runIn w = (.ok (.ref (w.objects.size + 3)),
      (((w.add (.list [.text "lost"])).add (.list [])).add (.map [])).add (.node {
        name := .text ("x-" ++ tag)
        isVoid := n.isVoid
        id := .none
        classes := .ref (w.objects.size + 1)
        style := .none
        listeners := .ref (w.objects.size + 2)
        attrs := n.attrs
        content := .text ""
        children := .ref w.objects.size })) := by
  have hafter : (Visitor.nameAfter "x-" (.ref i)).runIn w = (.ok (.text ("x-" ++ tag)), w) := by
    rw [Visitor.nameAfter, runIn_bind_ok (runIn_member hn rfl rfl), hname]
    rfl
  let w₁ := w.add (.list [.text "lost"])
  let f : NodeFields :=
    { isVoid := n.isVoid, attrs := n.attrs, children := some (.ref w.objects.size) }
  have hlost : (makeList [.text "lost"]).runIn w = (.ok (.ref w.objects.size), w₁) := rfl
  have htrue : (w₁.read (.text ("x-" ++ tag))).truthy = true := by
    simp [World.read, Term.truthy, Atom.truthy]
  have hvoid : (voidOr f.isVoid (.text ("x-" ++ tag))).runIn w₁ = (.ok n.isVoid, w₁) :=
    runIn_voidOr_some hvoid _ w₁
  have hclasses : w₁.classesFor f = (.ref (w.objects.size + 1), w₁.add (.list [])) := by
    rw [← size_add (w := w) (o := .list [.text "lost"])]
    rfl
  have hlisteners : w₁.listenersFor f =
      (.ref (w.objects.size + 2), (w₁.add (.list [])).add (.map [])) := by
    rw [World.listenersFor, hclasses]
    show (Value.ref (w₁.add (.list [])).objects.size, _) = _
    rw [size_add, size_add]
  have hattrs : w₁.attrsFor f = (n.attrs, (w₁.add (.list [])).add (.map [])) := by
    rw [World.attrsFor, hlisteners]
    exact orMade_some hattrs _ _
  have hcollections : w₁.withCollections f = (w₁.add (.list [])).add (.map []) := by
    rw [World.withCollections, World.childrenFor, hattrs]
    rfl
  have hmade : (makeNode (.text ("x-" ++ tag)) f).runIn w₁ = _ := runIn_makeNode htrue hvoid
  rw [Visitor.wrapAt, runIn_bind_ok hafter, runIn_bind_ok (runIn_member hn rfl rfl),
    runIn_bind_ok (runIn_member hn rfl rfl), runIn_bind_ok hlost]
  refine hmade.trans ?_
  rw [hcollections, World.nodeOver, hclasses, hlisteners, hattrs, World.childrenFor, hattrs,
    size_add, size_add, size_add]
  rfl

/-- Wrapping is a function of the features. -/
theorem computes_wrap (w : World) : Computes w (Visitor.visit .wrap) Features.wrapped := by
  refine ⟨fun {u i l n h} hkeep hn _ _ hh => ?_⟩
  have hfreezable := hh.freezable
  refine ⟨_, _, runIn_wrapAt hn hh.name hfreezable.isVoid hfreezable.attrs, ?_,
    .inr (Nat.le_add_right _ 3), ?_⟩
  · exact ((changesOnly_add.trans changesOnly_add).trans changesOnly_add).trans changesOnly_add
  let u₂ := (u.add (.list [.text "lost"])).add (.list [])
  let u₃ := u₂.add (.map [])
  let c : Node Value := {
    name := .text ("x-" ++ h.name)
    isVoid := n.isVoid
    id := .none
    classes := .ref (u.objects.size + 1)
    style := .none
    listeners := .ref (u.objects.size + 2)
    attrs := n.attrs
    content := .text ""
    children := .ref u.objects.size }
  show w.FeaturesAt (u₃.add (.node c)) (u.objects.size + 3) h.wrapped
  have hretains : u.Retains 0 (u₃.add (.node c)) :=
    ((changesOnly_add.trans changesOnly_add).trans changesOnly_add).trans changesOnly_add
  have hnode : (u₃.add (.node c)).objects[u.objects.size + 3]? = some (.node c) := by
    have hsize : u₃.objects.size = u.objects.size + 3 := by rw [size_add, size_add, size_add]
    rw [← hsize, get_add_new]
  have hclasses : (u₃.add (.node c)).objects[u.objects.size + 1]? =
      some (Frame.list.holding []) := by
    have hsize : (u.add (.list [.text "lost"])).objects.size = u.objects.size + 1 := size_add
    rw [← hsize]
    exact get_add (get_add get_add_new)
  have hlisteners : (u₃.add (.node c)).objects[u.objects.size + 2]? =
      some ((Frame.map []).holding []) := by
    have hsize : u₂.objects.size = u.objects.size + 2 := by rw [size_add, size_add]
    rw [← hsize]
    exact get_add get_add_new
  have hlike := (hh.keep hretains.keepsFields).like
  have hsteady := hh.steady
  have hle := hkeep.size_le
  simp only [Node.traits, Features.traits, List.forall₂_cons] at hlike
  refine ⟨c, hnode, rfl, ?_, fun k hk => hsteady k ?_⟩
  · refine .cons hlike.1 (.cons (.atom _) (.cons ?_ (.cons (.atom _) (.cons ?_ (.cons
      hlike.2.2.2.2.2.1 (.cons (.atom _) .nil))))))
    · exact .made (by omega) hclasses trivial .nil
    · exact .made (by omega) hlisteners ⟨.nil, rfl⟩ .nil
  · simp only [Features.traits, Features.wrapped, List.mem_cons, reduceCtorEq, false_or, or_false,
      List.not_mem_nil] at hk ⊢
    tauto

/-- Wrapping all nodes of a tree twice. -/
theorem traverse_maps_wrapping :
    MapLaws World.withParagraph 5 (.node 5 [.text "a", .node 3 []]) (Visitor.visit .wrap)
      (Visitor.visit .wrap) := by
  have hsteady : ∀ k, k = 0 ∨ k = 1 → World.withParagraph.Steady k := by
    rintro k (rfl | rfl)
    · exact ⟨.list [], rfl, trivial⟩
    · exact ⟨.map [], rfl, [], [], ⟨.nil, rfl⟩, rfl⟩
  refine traverse_maps World.spans_withParagraph (fun k hk n hn j hj => hsteady j ?_)
    (computes_wrap _) (computes_wrap _)
  have hsample : ∃ name children, n = sampleNode name children := by
    have hnumbers : k = 5 ∨ k = 3 := by simpa [Skeleton.numbers, Skeleton.numbersOf] using hk
    rcases hnumbers with rfl | rfl
    · have hdiv : some (Object.node (sampleNode "div" (.ref 4))) = some (.node n) := hn
      exact ⟨_, _, (Object.node.inj (Option.some.inj hdiv)).symm⟩
    · have hp : some (Object.node (sampleNode "p" (.ref 2))) = some (.node n) := hn
      exact ⟨_, _, (Object.node.inj (Option.some.inj hp)).symm⟩
  obtain ⟨name, children, rfl⟩ := hsample
  simpa [Node.traits, sampleNode] using hj

/-! ### Where the laws fail -/

/-- Whether a tree equals the one that handing every node back makes of it. -/
def equalsCopy (v : Value) : Operation Bool := do
  let copy ← traverse pure v
  return (← read copy).eq (← read v)

/-- Whether two traversals make the same as a single one. -/
def equalsFused (f g : Value → Operation Value) (v : Value) : Operation Bool := do
  let twice ← traverse g (← traverse f v)
  let once ← traverse (fun v => do g (← freeze (← f v))) v
  return (← read twice).eq (← read once)

/-- A node with a listener that is made for it. -/
def listening (v : Value) : Operation Value := do
  let listener ← make (.listener (.text "f") none none [])
  let listeners ← makeMap [(.text "click", ← makeList [listener])]
  makeNode (← member v "name") { listeners }

/-- A paragraph with a float for its content that is no number. -/
def World.withoutNumber : World :=
  .ofObjects #[.list [], .map [], .list [], .notANumber,
    .node { sampleNode "p" (.ref 2) with content := .ref 3 }]

/-- A paragraph with a tuple for its children. -/
def World.withTuple : World :=
  .ofObjects #[.list [], .map [], .tuple [.text "a"], .node (sampleNode "p" (.ref 2))]

/--
A copy is not equal where classes are missing, where a field does not equal itself or where the
children are no list.  A listener that is made in one traversal is not the one that is made in
another.
-/
theorem traverse_fails_to_map :
    ((equalsCopy (.ref 3)).runIn .withoutClasses).1 = .ok false ∧
      ((equalsCopy (.ref 4)).runIn .withoutNumber).1 = .ok false ∧
      ((equalsCopy (.ref 3)).runIn .withTuple).1 = .ok false ∧
      ((equalsFused listening pure (.ref 5)).runIn .withParagraph).1 = .ok false := by
  refine ⟨?_, ?_, ?_, ?_⟩ <;> decide +kernel

end Markup
