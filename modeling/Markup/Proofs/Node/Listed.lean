import Markup.Proofs.Node.Walkers
import Markup.Proofs.Tree.Equality

/-!
# Trees as nested lists

The nested list of a tree has a frozen node for each node of it, with the same fields and no
children (`World.ListsTree`).  Two such lists are equal exactly if the trees are the same when their
maps are sorted, as the trees themselves are; so equality is an equivalence relation, and equal
trees are written alike (`equal_trees`).
-/

namespace Markup

/-- Where each item has something that corresponds to it, all have in order. -/
theorem exists_forall₂_of_forall {α β : Type} {R : α → β → Prop} {as : List α}
    (h : ∀ a ∈ as, ∃ b, R a b) : ∃ bs, List.Forall₂ R as bs := by
  induction as with
  | nil => exact ⟨[], .nil⟩
  | cons a as ih =>
    obtain ⟨⟨b, hb⟩, hrest⟩ := List.forall_mem_cons.mp h
    obtain ⟨bs, hbs⟩ := ih hrest
    exact ⟨b :: bs, .cons hb hbs⟩

namespace World

variable {w w' : World} {v a b : Value} {t u : Tree}

/-! ## What a nested list shows -/

/--
A value is the nested list of a tree: each list starts with a node without children, which has the
fields of a head, and goes on with what there is for the children.
-/
inductive ListsTree (w : World) : Value → Tree → Prop
  | text (s : String) : ListsTree w (.text s) (.text s)
  | node {l j : Nat} {h : Head} {vs : List Value} {ts : List Tree}
      (list : w.objects[l]? = some (.list (.ref j :: vs))) (first : w.Shows (.ref j) (.node h []))
      (below : List.Forall₂ (ListsTree w) vs ts) : ListsTree w (.ref l) (.node h ts)

theorem ListsTree.keep (h : w.ListsTree v t) (hkeep : w.Keeps w') : w'.ListsTree v t := by
  induction t generalizing v with
  | text s =>
    cases h
    exact .text s
  | node head ts ih =>
    cases h with
    | node list first below =>
      exact .node (hkeep.list _ _ list) (first.keep hkeep)
        (forall₂_imp_of_mem below fun t ht _ h => ih t ht h)

/-- The fields of a node beside its children are all that a head says. -/
theorem HasFields.withChildren {n : Node Value} {h : Head} (hn : w.HasFields n h)
    (children : Value) : w.HasFields { n with children := children } h where
  name := hn.name
  isVoid := hn.isVoid
  id := hn.id
  classes := hn.classes
  style := hn.style
  listeners := hn.listeners
  attrs := hn.attrs
  content := hn.content

/-- A node that has a name can be frozen. -/
theorem HasFields.freezable {n : Node Value} {h : Head} (hn : w.HasFields n h)
    (hname : h.name ≠ "") : n.Freezable where
  isVoid := by simp [hn.isVoid]
  classes := by
    obtain ⟨_, hv, -⟩ := hn.classes
    simp [hv]
  listeners := by
    obtain ⟨_, ⟨_, hv, -⟩, -⟩ := hn.listeners
    simp [hv]
  attrs := by
    obtain ⟨_, hv, -⟩ := hn.attrs
    simp [hv]
  name := ⟨h.name, hn.name, hname⟩

/-- A tree of which every node has a name is a tree of nodes that can be frozen. -/
theorem Shows.exists_spans (h : w.Shows v t) (hnamed : ∀ n ∈ t.nodes, n.1.name ≠ "") :
    ∃ sk, w.Spans (fun _ => True) v sk := by
  induction t generalizing v with
  | text s =>
    cases h
    exact ⟨_, .text s⟩
  | node head ts ih =>
    rw [Tree.nodes_node, List.forall_mem_cons] at hnamed
    cases h with
    | node object fields holder below =>
      obtain ⟨l, hl, hlist⟩ := holder
      obtain ⟨sks, hsks⟩ := exists_forall₂_of_forall fun v hv => by
        obtain ⟨t, ht, hshows⟩ := exists_mem_of_forall₂ below.flip hv
        exact ih t ht hshows fun n hn => hnamed.2 n (List.mem_flatMap.mpr ⟨t, ht, hn⟩)
      exact ⟨_, .node object (fields.freezable hnamed.1) trivial hl hlist trivial hsks⟩

theorem Spans.eq_of_node {p : Nat → Prop} {i j : Nat} {sks : List Skeleton}
    (h : w.Spans p (.ref i) (.node j sks)) : i = j := by
  cases h
  rfl

/-- A nested list of frozen copies of the nodes of a tree is a nested list of the tree. -/
theorem listsTree_of_nests {p q : Nat → Prop} {sk sk' : Skeleton} (hv : w.Shows v t)
    (hspans : w.Spans p v sk) (hsame : sk.Corresponds (w.FrozenTo w') sk')
    (hnests : w'.Nests q a sk') (hkeep : w.Keeps w') : w'.ListsTree a t := by
  induction t generalizing v a sk sk' with
  | text s =>
    cases hv
    cases hspans
    cases hsame
    cases hnests
    exact .text s
  | node head ts ih =>
    cases hv with
    | node object fields holder below =>
      cases hspans with
      | node hn _ _ hchildren hlist _ hsub =>
        cases hsame with
        | node hij hsame =>
          cases hnests with
          | node hnested _ hnest =>
            obtain ⟨m, k, hm, hj, hk⟩ := hij
            obtain ⟨l, hl, hlist'⟩ := holder
            rw [object, Option.some.injEq, Object.node.injEq] at hn hm
            subst hn hm
            rw [hl, Value.ref.injEq] at hchildren
            subst hchildren
            rw [hlist', Option.some.injEq, Object.list.injEq] at hlist
            subst hlist
            have hfirst : w'.Shows (.ref _) (.node head []) :=
              .node hj ((fields.keep hkeep).withChildren _) ⟨k, rfl, hk⟩ .nil
            refine .node hnested hfirst ?_
            -- what is nested corresponds to the children through both skeletons
            have hcopied := forall₂_join hnest hsame
              (S := fun a sk => ∃ sk', w'.Nests q a sk' ∧ sk.Corresponds (w.FrozenTo w') sk')
              fun a _ sk sk' _ hnests hsame => ⟨sk', hnests, hsame⟩
            have hheld := forall₂_join hcopied hsub
              (S := fun a v => ∃ sk sk', w.Spans p v sk ∧ w'.Nests q a sk' ∧
                sk.Corresponds (w.FrozenTo w') sk')
              fun a _ v sk _ ⟨sk', hnests, hsame⟩ hspans => ⟨sk, sk', hspans, hnests, hsame⟩
            have hparts := forall₂_imp_of_mem below
              (S := fun v t => ∀ a, (∃ sk sk', w.Spans p v sk ∧ w'.Nests q a sk' ∧
                sk.Corresponds (w.FrozenTo w') sk') → w'.ListsTree a t)
              fun t ht v hv a ⟨sk, sk', hspans, hnests, hsame⟩ => ih t ht hv hspans hsame hnests
            exact forall₂_join hheld hparts.flip fun a _ t v _ hheld hpart => hpart a hheld

/-! ## Equality of nested lists -/

/-- A node without children shows its fields when it is unfolded far enough. -/
theorem Shows.unfold_childless {h : Head} (hv : w.Shows v (.node h [])) (depth : Nat) :
    (w.unfold true (depth + 3) v).Shows (.node h []) := by
  cases hv with
  | node object fields holder below =>
    cases below
    obtain ⟨l, hl⟩ := holder.unfold_items (depth + 1)
    rw [unfold_ref object]
    exact .node (fields.shows_unfold depth) hl .nil

/-- A node without children shows its listeners when it is unfolded a little further. -/
theorem Shows.within_childless {h : Head} (hv : w.Shows v (.node h []))
    (hcallable : h.Hears fun f => w.callable f = true) (depth : Nat) (i : Nat) (hi : v = .ref i) :
    Within w.Opens (depth + 4) i := by
  subst hi
  cases hv with
  | node object fields holder below =>
    cases below
    exact within_node object fields hcallable holder (List.forall_mem_nil _)

/-- Nested lists are equal exactly if the trees are alike when all their maps are sorted. -/
theorem ListsTree.eq_iff_like {depth : Nat} (ha : w.ListsTree a t) (hb : w.ListsTree b u)
    (ht : t.Hears fun f => w.callable f = true) (hdepth : t.height + 4 ≤ depth)
    (hdepth' : u.height + 4 ≤ depth) :
    (w.unfold true depth a).eq (w.unfold true depth b) = true ↔
      t.sorted.Like w.SameComparand u.sorted := by
  induction t generalizing a b u depth with
  | text s =>
    cases ha
    obtain ⟨depth, rfl⟩ := Nat.exists_eq_add_of_le' (Nat.le_trans (by omega) hdepth : 1 ≤ depth)
    cases hb with
    | text s' => rw [unfold_atom, unfold_atom, Term.eq_text, Tree.sorted, Tree.sorted,
        Tree.like_text_iff]
    | node list _ _ =>
      rw [unfold_atom, unfold_ref list]
      exact iff_of_false (by simp [Term.eq, Object.mapParts]) Tree.not_sorted_text_like_node
  | node g ts ih =>
    rw [Tree.height] at hdepth
    obtain ⟨depth, rfl⟩ := Nat.exists_eq_add_of_le' (Nat.le_trans (by omega) hdepth : 5 ≤ depth)
    cases ha with
    | @node l i _ vs _ list first below =>
      cases hb with
      | text s' =>
        rw [unfold_atom, unfold_ref list]
        exact iff_of_false (by simp [Term.eq, Object.mapParts]) Tree.not_sorted_node_like_text
      | @node l' j h vs' us list' first' below' =>
        rw [Tree.height] at hdepth'
        have hg : (Tree.node g []).Hears fun f => w.callable f = true := by
          simpa [Tree.Hears] using ht.head
        have hcopy := first.unfold_childless (depth + 1)
        have hin := first.within_childless ht.head depth
        have hfirst : (w.unfold true (depth + 4) (.ref i)).same
            (w.unfold true (depth + 4) (.ref j)) = true ↔ g.Rearranged w.SameComparand h := by
          rw [same_iff_eq ((World.eq_iff_like hcopy hcopy hg hin).mpr (.refl (.refl w) _)),
            World.eq_iff_like hcopy (first'.unfold_childless (depth + 1)) hg hin,
            Tree.sorted_like_node_iff]
          simp
        rw [unfold_ref list, unfold_ref list', Tree.sorted_like_node_iff]
        show Term.eq (.list l ((.ref i :: vs).map (w.unfold true (depth + 4))))
          (.list l' ((.ref j :: vs').map (w.unfold true (depth + 4)))) = true ↔ _
        rw [Term.eq, Term.allSame_iff, List.forall₂_map_left_iff, List.forall₂_map_right_iff,
          List.forall₂_cons, hfirst]
        refine and_congr_right fun _ => forall₂_congr_of_forall₂ below below' ?_
        intro a b t hts u hus ha hb
        have hle := Tree.height_le_heightOf hts
        have hle' := Tree.height_le_heightOf hus
        have hself : (w.unfold true (depth + 4) a).eq (w.unfold true (depth + 4) a) = true :=
          (ih t hts ha ha (ht.below t hts) (by omega) (by omega)).mpr (.refl (.refl w) _)
        rw [same_iff_eq hself]
        exact ih t hts ha hb (ht.below t hts) (by omega) (by omega)

end World

namespace Operation

open World

variable {w w' : World} {v a : Value} {h : Head} {ts : List Tree}

/-- Turning a node into a list makes a frozen copy, the list of its children, and the list. -/
theorem size_toList {i : Nat} {n : Node Value} (hn : w.objects[i]? = some (.node n))
    (hfreezable : n.Freezable) (hrun : (toList (.ref i)).runIn w = (.ok a, w')) :
    w.objects.size + 3 ≤ w'.objects.size := by
  rw [runIn_toList hn, World.depthBound, runIn_transformTo hn,
    runIn_bind_ok (runIn_freezeNode hfreezable w)] at hrun
  obtain ⟨rest, w₁, hrest, hrun⟩ := ok_of_runIn_bind hrun
  have hkeep : (w.withFrozenCopy n).Retains 0 w₁ :=
    (retaining_answersOf (retaining_walkChild fun w i n hn => retains_transformTo hn) _).of_runIn
      hrest
  have hsize := hkeep.size_le
  have hlast : w' = w₁.add (.list (.ref (w.objects.size + 1) :: rest)) :=
    (congrArg Prod.snd hrun).symm
  rw [size_withFrozenCopy] at hsize
  rw [hlast, size_add]
  omega

/-- A tree of which every node has a name is turned into the nested list of it. -/
theorem exists_listsTree (hv : w.Shows v (.node h ts))
    (hnamed : ∀ n ∈ (Tree.node h ts).nodes, n.1.name ≠ "") :
    ∃ a w', (toList v).runIn w = (.ok a, w') ∧ w.Retains 0 w' ∧
      w.objects.size + 3 ≤ w'.objects.size ∧ w'.ListsTree a (.node h ts) := by
  obtain ⟨sk, hspans⟩ := hv.exists_spans hnamed
  have hname : h.name ≠ "" := hnamed (h, ts) (by simp)
  have hnode := hv
  cases hnode with
  | node object fields holder below =>
    cases sk with
    | text s => cases hspans
    | node i sks =>
      obtain rfl := hspans.eq_of_node
      obtain ⟨a, w', u, hrun, hkeep, hnests, hsame⟩ := exists_toList hspans
      exact ⟨a, w', hrun, hkeep, size_toList object (fields.freezable hname) hrun,
        listsTree_of_nests hv hspans hsame hnests hkeep.keeps⟩

end Operation

/-! ## The main result -/

open Operation World

/--
A value is a tree as constructors make them: its fields have the types they are meant to have, every
node has a name, and its listeners can be called.
-/
structure World.HoldsTree (w : World) (v : Value) (t : Tree) : Prop where
  node : ∃ h ts, t = .node h ts
  shows : (w.read v).Shows t
  named : ∀ n ∈ t.nodes, n.1.name ≠ ""
  callable : t.Hears fun f => w.callable f = true

/-- Values that are trees are equal, as trees are. -/
def World.Equal (w : World) (a b : {v : Value // ∃ t, w.HoldsTree v t}) : Prop :=
  (w.read a.1).eq (w.read b.1) = true

section Equal

variable {w w' : World} {a b : Value} {t u : Tree}

theorem World.HoldsTree.eq_iff_comparand (ha : w.HoldsTree a t) (hb : w.HoldsTree b u) :
    (w.read a).eq (w.read b) = true ↔ t.sorted.Like w.SameComparand u.sorted :=
  World.eq_iff_like ha.shows hb.shows ha.callable fun _ hi =>
    within_of_shows ha.shows ha.callable hi

/-- Where listeners can be called, they are equal if they are the same or of one kind. -/
theorem World.like_same_iff (ht : t.Hears fun f => w.callable f = true)
    (hu : u.Hears fun f => w.callable f = true) :
    t.sorted.Like w.Same u.sorted ↔ t.sorted.Like w.SameComparand u.sorted := by
  have hsame : ∀ f f', w.callable f = true → (w.Same f f' ↔ w.SameComparand f f') :=
    fun f f' hf => same_callable hf fun _ _ => Nat.succ_pos _
  exact ⟨fun h => h.sorted_imp ht hu fun f f' hf _ => (hsame f f' hf).mp,
    fun h => h.sorted_imp ht hu fun f f' hf _ => (hsame f f' hf).mpr⟩

/-- Whether listeners are the same or of one kind does not change with what else is made. -/
theorem World.Retains.like_iff (hkeep : w.Retains 0 w') (ht : t.Hears fun f => w.callable f = true)
    (hu : u.Hears fun f => w.callable f = true) :
    t.sorted.Like w'.SameComparand u.sorted ↔ t.sorted.Like w.SameComparand u.sorted := by
  have hsame : ∀ f f', w.callable f = true → w.callable f' = true →
      (w'.SameComparand f f' ↔ w.SameComparand f f') := by
    intro f f' hf hf'
    rw [SameComparand, SameComparand, hkeep.comparand_eq hf, hkeep.comparand_eq hf']
  exact ⟨fun h => h.sorted_imp ht hu fun f f' hf hf' => (hsame f f' hf hf').mp,
    fun h => h.sorted_imp ht hu fun f f' hf hf' => (hsame f f' hf hf').mpr⟩

theorem World.HoldsTree.eq_iff (ha : w.HoldsTree a t) (hb : w.HoldsTree b u) :
    (w.read a).eq (w.read b) = true ↔ t.sorted.Like w.Same u.sorted :=
  (ha.eq_iff_comparand hb).trans (like_same_iff ha.callable hb.callable).symm

theorem World.equivalence_equal (w : World) : Equivalence w.Equal where
  refl a := by
    obtain ⟨t, ha⟩ := a.2
    exact (ha.eq_iff_comparand ha).mpr (.refl (.refl w) _)
  symm {a b} h := by
    obtain ⟨t, ha⟩ := a.2
    obtain ⟨u, hb⟩ := b.2
    exact (hb.eq_iff_comparand ha).mpr (((ha.eq_iff_comparand hb).mp h).symm fun _ _ => Eq.symm)
  trans {a b c} h h' := by
    obtain ⟨t, ha⟩ := a.2
    obtain ⟨u, hb⟩ := b.2
    obtain ⟨v, hc⟩ := c.2
    exact (ha.eq_iff_comparand hc).mpr (((ha.eq_iff_comparand hb).mp h).trans
      ((hb.eq_iff_comparand hc).mp h') fun _ _ _ => Eq.trans)

/-- The nested lists of two trees, one made after the other, are equal as the trees are. -/
theorem World.HoldsTree.exists_toList_eq_iff (ha : w.HoldsTree a t) (hb : w.HoldsTree b u) :
    ∃ c w₁ d w₂, (toList a).runIn w = (.ok c, w₁) ∧ (toList b).runIn w₁ = (.ok d, w₂) ∧
      ((w₂.read c).eq (w₂.read d) = true ↔ t.sorted.Like w.Same u.sorted) := by
  obtain ⟨g, ts, rfl⟩ := ha.node
  obtain ⟨h, us, rfl⟩ := hb.node
  have hheight := height_le_of_unfold ha.shows
  have hheight' := height_le_of_unfold hb.shows
  obtain ⟨c, w₁, hrun₁, hkeep₁, hsize₁, hc⟩ := exists_listsTree (.of_unfold ha.shows) ha.named
  obtain ⟨d, w₂, hrun₂, hkeep₂, hsize₂, hd⟩ :=
    exists_listsTree ((Shows.of_unfold hb.shows).keep hkeep₁.keeps) hb.named
  refine ⟨c, w₁, d, w₂, hrun₁, hrun₂, ?_⟩
  have hkeep : w.Retains 0 w₂ := hkeep₁.trans hkeep₂
  have hcallable : (Tree.node g ts).Hears fun f => w₂.callable f = true :=
    fun n hn l hl f hf => Retains.callable hkeep (ha.callable n hn l hl f hf)
  rw [depthBound] at hheight hheight'
  rw [like_same_iff ha.callable hb.callable, ← Retains.like_iff hkeep ha.callable hb.callable]
  exact (hc.keep hkeep₂.keeps).eq_iff_like hd hcallable
    (by rw [depthBound]; omega) (by rw [depthBound]; omega)

/-- A tree is written part after part. -/
theorem World.HoldsTree.exists_render (ha : w.HoldsTree a t) :
    ∃ text, (render a).runIn w = (.ok text, w) ∧ text.toList = Token.writeAll t.parts := by
  obtain ⟨h, ts, rfl⟩ := ha.node
  exact ⟨_, render_of_shows ha.shows, Tree.toList_html _⟩

/--
What equality of trees means.  Two trees are equal exactly if they are the same once the maps of
every node are sorted by key, with listeners that are the same or equal one by one, and exactly if
their nested lists are equal.  So equality is an equivalence relation, and equal trees are written
in the same way but for the order of plain attributes within tags and of declarations within styles.
-/
theorem equal_trees (ha : w.HoldsTree a t) (hb : w.HoldsTree b u) :
    ((w.read a).eq (w.read b) = true ↔ t.sorted.Like w.Same u.sorted) ∧
      (∃ c w₁ d w₂, (toList a).runIn w = (.ok c, w₁) ∧ (toList b).runIn w₁ = (.ok d, w₂) ∧
        ((w₂.read c).eq (w₂.read d) = true ↔ t.sorted.Like w.Same u.sorted)) ∧
      Equivalence w.Equal ∧
      ((w.read a).eq (w.read b) = true → ∃ text text' parts parts',
        (render a).runIn w = (.ok text, w) ∧ (render b).runIn w = (.ok text', w) ∧
          text.toList = Token.writeAll parts ∧ text'.toList = Token.writeAll parts' ∧
          List.Forall₂ Token.Rearranged parts parts') := by
  refine ⟨ha.eq_iff hb, ha.exists_toList_eq_iff hb, w.equivalence_equal, fun heq => ?_⟩
  obtain ⟨text, hrun, htext⟩ := ha.exists_render
  obtain ⟨text', hrun', htext'⟩ := hb.exists_render
  exact ⟨text, text', t.parts, u.parts, hrun, hrun', htext, htext',
    Tree.rearranged_parts ((ha.eq_iff hb).mp heq)⟩

end Equal

/-! ### Two nodes with the same entries in another order -/

/--
Two nodes, each above one of two nodes that hold the same entries in opposite orders.  What listens
to the one is of the same kind as what listens to the other.
-/
def mirroredWorld : World := .ofObjects #[
  .listener (.text "f") none (some 0) [], .list [], .list [.ref 0], .map [],
  .map [(.text "click", .ref 2), (.text "focus", .ref 2)],
  .map [(.text "focus", .ref 17), (.text "click", .ref 17)],
  .map [(.text "lang", .none), (.text "title", .text "t")],
  .map [(.text "title", .text "t"), (.text "lang", .none)],
  .map [(.text "top", .text "0"), (.text "left", .text "1")],
  .map [(.text "left", .text "1"), (.text "top", .text "0")],
  .node ⟨.text "b", .bool false, .none, .ref 1, .ref 8, .ref 4, .ref 6, .text "", .ref 1⟩,
  .node ⟨.text "b", .bool false, .none, .ref 1, .ref 9, .ref 5, .ref 7, .text "", .ref 1⟩,
  .list [.text "x", .ref 10], .list [.text "x", .ref 11],
  .node ⟨.text "p", .bool false, .none, .ref 1, .none, .ref 3, .ref 3, .none, .ref 12⟩,
  .node ⟨.text "p", .bool false, .none, .ref 1, .none, .ref 3, .ref 3, .none, .ref 13⟩,
  .listener (.text "f") none (some 0) [], .list [.ref 16]]

/-- The head of the lower nodes, with its entries in one order or the other. -/
def mirroredHead (style : Style) (listeners : Entries String (List Value))
    (attrs : Entries String AttributeValue) (hstyle : (Entries.keys style).Nodup)
    (hlisteners : (Entries.keys listeners).Nodup) (hattrs : (Entries.keys attrs).Nodup) : Head :=
  { Head.bare "b" false with
    style := some style, listeners := listeners, attrs := attrs, content := some ""
    style_nodup := by simpa using hstyle, listeners_nodup := hlisteners, attrs_nodup := hattrs }

/-- The first of the trees, and the second one. -/
def mirrored : Tree × Tree :=
  (.node (Head.bare "p" false) [.text "x", .node (mirroredHead [("top", "0"), ("left", "1")]
      [("click", [.ref 0]), ("focus", [.ref 0])] [("lang", .none), ("title", .text "t")]
      (by decide) (by decide) (by decide)) []],
    .node (Head.bare "p" false) [.text "x", .node (mirroredHead [("left", "1"), ("top", "0")]
      [("focus", [.ref 16]), ("click", [.ref 16])] [("title", .text "t"), ("lang", .none)]
      (by decide) (by decide) (by decide)) []])

theorem holdsTree_mirrored : mirroredWorld.HoldsTree (.ref 14) mirrored.1 ∧
    mirroredWorld.HoldsTree (.ref 15) mirrored.2 := by
  constructor <;> refine ⟨⟨_, _, rfl⟩, ?_, by decide, ?_⟩
  case left.refine_1 | right.refine_1 =>
    exact .node ⟨rfl, rfl, rfl, ⟨_, rfl⟩, rfl, ⟨_, _, rfl, .nil⟩, ⟨_, rfl⟩, rfl⟩ rfl
      (.cons (.text _) (.cons (.node ⟨rfl, rfl, rfl, ⟨_, rfl⟩, ⟨_, rfl⟩, ⟨_, _, rfl,
        .cons ⟨rfl, _, _, rfl, rfl⟩ (.cons ⟨rfl, _, _, rfl, rfl⟩ .nil)⟩, ⟨_, rfl⟩, rfl⟩ rfl .nil)
        .nil))
  case left.refine_2 | right.refine_2 =>
    unfold Tree.Hears Head.Hears
    decide

/-- The trees are alike, up to listeners of one kind. -/
theorem mirrored_like : mirrored.1.sorted.Like mirroredWorld.Same mirrored.2.sorted := by
  have hsame : mirroredWorld.Same (.ref 0) (.ref 16) :=
    (same_callable rfl fun _ _ => Nat.succ_pos _).mpr rfl
  have hmatched : Entries.Matched (List.Forall₂ mirroredWorld.Same)
      [("click", [.ref 0]), ("focus", [.ref 0])] [("focus", [.ref 16]), ("click", [.ref 16])] :=
    ⟨rfl, by simpa using hsame⟩
  refine Tree.sorted_like_node_iff.mpr ⟨?_, .cons (.text "x") (.cons ?_ .nil)⟩
  · exact ⟨rfl, rfl, rfl, rfl, .none, ⟨rfl, List.forall_mem_nil _⟩, .refl _, rfl⟩
  · exact Tree.sorted_like_node_iff.mpr
      ⟨⟨rfl, rfl, rfl, rfl, .some (.swap _ _ _), hmatched, .swap _ _ _, rfl⟩, .nil⟩

theorem equal_trees_mirrored :
    mirroredWorld.HoldsTree (.ref 14) mirrored.1 ∧ mirroredWorld.HoldsTree (.ref 15) mirrored.2 ∧
      (mirroredWorld.read (.ref 14)).eq (mirroredWorld.read (.ref 15)) = true ∧
      ∃ c w₁ d w₂, (toList (.ref 14)).runIn mirroredWorld = (.ok c, w₁) ∧
        (toList (.ref 15)).runIn w₁ = (.ok d, w₂) ∧ (w₂.read c).eq (w₂.read d) = true := by
  obtain ⟨hfirst, hsecond⟩ := holdsTree_mirrored
  obtain ⟨heq, ⟨c, w₁, d, w₂, hrun, hrun', hlists⟩, -⟩ := equal_trees hfirst hsecond
  exact ⟨hfirst, hsecond, heq.mpr mirrored_like, c, w₁, d, w₂, hrun, hrun',
    hlists.mpr mirrored_like⟩

/--
A constructor, two mappings that have equal tuples for keys, and two nodes with equal contents that
are no texts.
-/
def World.withNumbers : World := .ofObjects #[.constructor ⟨.text "p", .bool false⟩,
  .tuple [.int 1], .map [(.ref 1, .text "x")], .tuple [.bool true], .map [(.ref 3, .text "x")],
  .list [], .map [],
  .node ⟨.text "p", .bool false, .none, .ref 5, .none, .ref 6, .ref 6, .int 1, .ref 5⟩,
  .node ⟨.text "p", .bool false, .none, .ref 5, .none, .ref 6, .ref 6, .bool true, .ref 5⟩]

/--
Trees can be equal whose listeners are not the same.  Nodes that have other keys or contents than
texts can be equal without being alike, and are written in different ways.
-/
theorem equal_trees_unlike :
    (mirroredWorld.HoldsTree (.ref 14) mirrored.1 ∧ mirroredWorld.HoldsTree (.ref 15) mirrored.2 ∧
      (mirroredWorld.read (.ref 14)).eq (mirroredWorld.read (.ref 15)) = true ∧
      ¬ mirrored.1.sorted.Like Eq mirrored.2.sorted) ∧
    (((do
      let a ← callValue (.ref 0) ⟨[.ref 2], []⟩
      let b ← callValue (.ref 0) ⟨[.ref 4], []⟩
      return (← read a).eq (← read b)).runIn .withNumbers).1 = .ok true) ∧
    (World.withNumbers.read (.ref 7)).eq (World.withNumbers.read (.ref 8)) = true ∧
      ((render (.ref 7)).runIn .withNumbers).1 = .ok "<p>1</p>" ∧
      ((render (.ref 8)).runIn .withNumbers).1 = .ok "<p>True</p>" := by
  obtain ⟨hfirst, hsecond⟩ := holdsTree_mirrored
  refine ⟨⟨hfirst, hsecond, (hfirst.eq_iff hsecond).mpr mirrored_like, fun hlike => ?_⟩,
    by decide +kernel, by decide +kernel, by decide +kernel, by decide +kernel⟩
  obtain ⟨-, hchildren⟩ := Tree.sorted_like_node_iff.mp hlike
  rw [List.forall₂_cons, List.forall₂_cons] at hchildren
  have hhead := (Tree.sorted_like_node_iff.mp hchildren.2.1).1
  obtain ⟨fns, hfns, hall⟩ := hhead.listeners.2 ("click", [.ref 0]) List.mem_cons_self
  obtain rfl : fns = [.ref 16] := by simpa [mirroredHead] using hfns
  simp at hall

end Markup
