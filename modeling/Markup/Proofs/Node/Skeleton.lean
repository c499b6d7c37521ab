import Markup.Proofs.Node.Frozen
import Mathlib.Data.Fintype.Card

/-!
# Trees of node numbers

A `Skeleton` says which nodes a tree has, by their numbers, and which texts stand between them.  A
world holds it in one of two ways: as a tree, in which each node has a list for its children
(`World.Spans`), or as lists in lists, in which each list starts with the node
(`World.Nests`).  A node that occurs several times in a tree occurs several times in the skeleton.

What a world spans is finite and its nodes do not lie below themselves, so that no more of them lie
below one another than there are objects (`World.Spans.height_le`).
-/

namespace Markup

/-- The numbers of the nodes of a tree, and the texts. -/
inductive Skeleton where
  | text (s : String)
  | node (i : Nat) (children : List Skeleton)

namespace Skeleton

/-- Skeletons are gone through with the children of a node as a whole. -/
@[elab_as_elim, induction_eliminator]
theorem ind {p : Skeleton → Prop} (text : ∀ s, p (.text s))
    (node : ∀ i children, (∀ c ∈ children, p c) → p (.node i children)) (t : Skeleton) : p t := by
  refine t.rec (motive_2 := fun children => ∀ c ∈ children, p c) text node ?_ ?_
  · intro c hc
    cases hc
  · intro t ts ht hts c hc
    rcases List.mem_cons.mp hc with rfl | hc
    · exact ht
    · exact hts c hc

mutual

/-- The numbers of the nodes in document order. -/
def numbers : Skeleton → List Nat
  | .text _ => []
  | .node i children => i :: numbersOf children

/-- The numbers of the nodes of some trees in document order. -/
def numbersOf : List Skeleton → List Nat
  | [] => []
  | t :: ts => t.numbers ++ numbersOf ts

end

theorem mem_numbersOf {ts : List Skeleton} {i : Nat} :
    i ∈ numbersOf ts ↔ ∃ t ∈ ts, i ∈ t.numbers := by
  induction ts with
  | nil => simp [numbersOf]
  | cons t ts ih => simp [numbersOf, ih]

mutual

/-- How many nodes lie below one another at most. -/
def height : Skeleton → Nat
  | .text _ => 0
  | .node _ children => heightOf children + 1

/-- The greatest height of some trees. -/
def heightOf : List Skeleton → Nat
  | [] => 0
  | t :: ts => max t.height (heightOf ts)

end

theorem height_le_heightOf {t : Skeleton} {ts : List Skeleton} (h : t ∈ ts) :
    t.height ≤ heightOf ts := by
  induction ts with
  | nil => cases h
  | cons u us ih =>
    rw [heightOf]
    rcases List.mem_cons.mp h with rfl | h
    · exact Nat.le_max_left _ _
    · exact Nat.le_trans (ih h) (Nat.le_max_right _ _)

/-- Where some trees are high, one of them is. -/
theorem exists_le_height {ts : List Skeleton} {k : Nat} (hk : 0 < k) (h : k ≤ heightOf ts) :
    ∃ t ∈ ts, k ≤ t.height := by
  induction ts with
  | nil =>
    rw [heightOf] at h
    omega
  | cons u us ih =>
    rw [heightOf] at h
    rcases le_max_iff.mp h with hu | hus
    · exact ⟨u, List.mem_cons_self, hu⟩
    · obtain ⟨t, ht, hle⟩ := ih hus
      exact ⟨t, List.mem_cons_of_mem u ht, hle⟩

/-- Two trees with the same texts at the same places, and with nodes that correspond. -/
inductive Corresponds (r : Nat → Nat → Prop) : Skeleton → Skeleton → Prop
  | text (s : String) : Corresponds r (.text s) (.text s)
  | node {i j : Nat} {ts us : List Skeleton} (h : r i j)
      (hsub : List.Forall₂ (Corresponds r) ts us) : Corresponds r (.node i ts) (.node j us)

theorem Corresponds.mono {r r' : Nat → Nat → Prop} {t u : Skeleton} (h : t.Corresponds r u)
    (hle : ∀ i j, r i j → r' i j) : t.Corresponds r' u := by
  induction u generalizing t with
  | text s =>
    cases h
    exact .text s
  | node i us ih =>
    cases h with
    | node hij hsub =>
      exact .node (hle _ _ hij) (forall₂_imp_of_mem hsub fun u hu _ h => ih u hu h)

section Corresponds

variable {r r' s : Nat → Nat → Prop} {t u v : Skeleton}

theorem Corresponds.symm (h : t.Corresponds r u) : u.Corresponds (flip r) t := by
  induction u generalizing t with
  | text s =>
    cases h
    exact .text s
  | node j us ih =>
    cases h with
    | node hij hsub =>
      exact .node hij (forall₂_imp_of_mem hsub fun u hu t h => ih u hu h).flip

/-- Two trees that correspond to the same tree correspond to one another. -/
theorem Corresponds.join (h : t.Corresponds r u) (h' : t.Corresponds r' v)
    (hjoin : ∀ i j k, r i j → r' i k → s j k) : u.Corresponds s v := by
  induction t generalizing u v with
  | text s =>
    cases h
    cases h'
    exact .text s
  | node i ts ih =>
    cases h with
    | node hij hsub =>
      cases h' with
      | node hik hsub' =>
        refine .node (hjoin _ _ _ hij hik) (forall₂_join hsub.flip hsub'.flip ?_)
        exact fun u _ v t ht h h' => ih t ht h h'

theorem Corresponds.trans (h : t.Corresponds r u) (h' : u.Corresponds r' v)
    (htrans : ∀ i j k, r i j → r' j k → s i k) : t.Corresponds s v :=
  h.symm.join h' fun j i k hij hjk => htrans i j k hij hjk

/-- What holds of all nodes that correspond to others holds of the nodes of the second tree. -/
theorem Corresponds.of_mem_numbers {p : Nat → Prop} (h : t.Corresponds r u)
    (hp : ∀ i j, r i j → p j) {j : Nat} (hj : j ∈ u.numbers) : p j := by
  induction u generalizing t with
  | text s => cases hj
  | node k us ih =>
    cases h with
    | node hik hsub =>
      rcases List.mem_cons.mp hj with rfl | hj
      · exact hp _ _ hik
      · obtain ⟨u, hu, hju⟩ := mem_numbersOf.mp hj
        obtain ⟨t, -, ht⟩ := exists_mem_of_forall₂ hsub hu
        exact ih u hu ht hju

end Corresponds

end Skeleton

/-! ## Nodes of which there are copies -/

/--
A node that has a name and of which no field is missing that a new node would have to find for
itself: a frozen copy has all of its fields.
-/
structure Node.Freezable (n : Node Value) : Prop extends n.Complete where
  name : ∃ tag, n.name = .text tag ∧ tag ≠ ""

theorem Node.Freezable.withChildren {n : Node Value} (h : n.Freezable) (children : Value) :
    Node.Freezable { n with children := children } where
  isVoid := h.isVoid
  classes := h.classes
  listeners := h.listeners
  attrs := h.attrs
  name := h.name

namespace World

/-- The world with a frozen copy of a node, the list of its children before it. -/
def withFrozenCopy (w : World) (n : Node Value) : World :=
  (w.add (.list [])).add (.node { n with children := .ref w.objects.size })

theorem size_withFrozenCopy (w : World) (n : Node Value) :
    (w.withFrozenCopy n).objects.size = w.objects.size + 2 := by
  rw [withFrozenCopy, size_add, size_add]

theorem retains_withFrozenCopy (w : World) (n : Node Value) : w.Retains 0 (w.withFrozenCopy n) :=
  changesOnly_add.trans changesOnly_add

theorem get_withFrozenCopy_node {w : World} {n : Node Value} :
    (w.withFrozenCopy n).objects[w.objects.size + 1]? =
      some (.node { n with children := .ref w.objects.size }) := by
  have hnew : w.objects.size + 1 = (w.add (.list [])).objects.size := size_add.symm
  rw [withFrozenCopy, hnew, get_add_new]

theorem get_withFrozenCopy_list {w : World} {n : Node Value} :
    (w.withFrozenCopy n).objects[w.objects.size]? = some (.list []) :=
  get_add get_add_new

end World

namespace Operation

open World

variable {n : Node Value}

/-- Freezing makes a list without items and the copy over it. -/
theorem runIn_freezeNode (h : n.Freezable) (w : World) :
    (freezeNode n).runIn w = (.ok (.ref (w.objects.size + 1)), w.withFrozenCopy n) := by
  obtain ⟨tag, hname, hne⟩ := h.name
  have hread : (w.read n.name).truthy = true := by
    rw [hname]
    simpa [World.read, Term.truthy, Atom.truthy] using hne
  rw [freezeNode, runIn_makeNode hread (runIn_voidOr_some h.isVoid n.name w),
    withCollections_frozenFields h.toComplete, nodeOver_frozenFields h.toComplete, size_add]
  rfl

end Operation

/-! ## What a world holds of a tree -/

namespace World

/--
A value is a tree of nodes and texts.  Each node has a list for its children, and the numbers of the
nodes and of the lists are among those that are given.
-/
inductive Spans (w : World) (p : Nat → Prop) : Value → Skeleton → Prop
  | text (s : String) : Spans w p (.text s) (.text s)
  | node {i l : Nat} {n : Node Value} {vs : List Value} {ts : List Skeleton}
      (hn : w.objects[i]? = some (.node n)) (hfreezable : n.Freezable) (hi : p i)
      (hchildren : n.children = .ref l) (hlist : w.objects[l]? = some (.list vs)) (hl : p l)
      (hsub : List.Forall₂ (Spans w p) vs ts) : Spans w p (.ref i) (.node i ts)

/--
A value is a nested list of nodes and texts: each list has a node first, and then what there is for
its children.  The numbers of the lists are among those that are given.
-/
inductive Nests (w : World) (p : Nat → Prop) : Value → Skeleton → Prop
  | text (s : String) : Nests w p (.text s) (.text s)
  | node {i l : Nat} {vs : List Value} {ts : List Skeleton}
      (hlist : w.objects[l]? = some (.list (.ref i :: vs))) (hl : p l)
      (hsub : List.Forall₂ (Nests w p) vs ts) : Nests w p (.ref l) (.node i ts)

variable {w w' : World} {p p' : Nat → Prop} {v : Value} {t t' : Skeleton}

theorem Nests.mono (h : w.Nests p v t) (hp : ∀ i, p i → p' i)
    (hkeep : ∀ i vs, p i → w.objects[i]? = some (.list vs) → w'.objects[i]? = some (.list vs)) :
    w'.Nests p' v t := by
  induction t generalizing v with
  | text s =>
    cases h
    exact .text s
  | node i ts ih =>
    cases h with
    | node hlist hl hsub =>
      exact .node (hkeep _ _ hl hlist) (hp _ hl)
        (forall₂_imp_of_mem hsub fun t ht _ h => ih t ht h)

/-- What holds of the lists of a nested list in one world holds of them where they are the same. -/
theorem Nests.both (h : w.Nests p v t) (h' : w'.Nests p' v t)
    (hkeep : ∀ i vs, p i → w.objects[i]? = some (.list vs) → w'.objects[i]? = some (.list vs)) :
    w.Nests (fun i => p i ∧ p' i) v t := by
  induction t generalizing v with
  | text s =>
    cases h
    exact .text s
  | node i ts ih =>
    cases h with
    | node hlist hl hsub =>
      cases h' with
      | node hlist' hl' hsub' =>
        rw [hkeep _ _ hl hlist, Option.some.injEq, Object.list.injEq, List.cons.injEq] at hlist'
        obtain ⟨-, rfl⟩ := hlist'
        refine .node hlist ⟨hl, hl'⟩ ?_
        rw [List.forall₂_iff_get] at hsub hsub' ⊢
        exact ⟨hsub.1, fun k h h' => ih _ (List.get_mem _ _) (hsub.2 k h h') (hsub'.2 k h h')⟩

theorem Nests.both_each {vs : List Value} {ts : List Skeleton}
    (h : List.Forall₂ (w.Nests p) vs ts) (h' : List.Forall₂ (w'.Nests p') vs ts)
    (hkeep : ∀ i vs, p i → w.objects[i]? = some (.list vs) → w'.objects[i]? = some (.list vs)) :
    List.Forall₂ (w.Nests fun i => p i ∧ p' i) vs ts := by
  rw [List.forall₂_iff_get] at h h' ⊢
  exact ⟨h.1, fun k hk hk' => (h.2 k hk hk').both (h'.2 k hk hk') hkeep⟩

/-- The number is that of a list in a nested list. -/
def ListIn (w : World) (v : Value) (t : Skeleton) (i : Nat) : Prop :=
  ∀ p : Nat → Prop, w.Nests p v t → p i

/-- There is one tree of a value. -/
theorem Spans.unique (h : w.Spans p v t) (h' : w.Spans p v t') : t = t' := by
  induction t generalizing v t' with
  | text s =>
    cases h
    cases h'
    rfl
  | node i ts ih =>
    cases h with
    | node hn hfreezable hi hchildren hlist hl hsub =>
      cases h' with
      | node hn' hfreezable' hi' hchildren' hlist' hl' hsub' =>
        rw [hn, Option.some.injEq, Object.node.injEq] at hn'
        subst hn'
        rw [hchildren, Value.ref.injEq] at hchildren'
        subst hchildren'
        rw [hlist, Option.some.injEq, Object.list.injEq] at hlist'
        subst hlist'
        rw [List.forall₂_iff_get] at hsub hsub'
        have hlength := hsub.1.symm.trans hsub'.1
        congr 1
        refine List.ext_get hlength fun k h h' => ?_
        exact ih _ (List.get_mem _ _) (hsub.2 k (hsub.1 ▸ h) h) (hsub'.2 k (hsub.1 ▸ h) h')

/-- What holds of texts and of nodes of lower trees holds of the children of a node. -/
theorem Spans.children {q : Value → Skeleton → Prop} {depth : Nat} {vs : List Value}
    {ts : List Skeleton} (hsub : List.Forall₂ (w.Spans p) vs ts)
    (hheight : Skeleton.heightOf ts ≤ depth) (text : ∀ s, q (.text s) (.text s))
    (node : ∀ i us n, .node i us ∈ ts → (Skeleton.node i us).height ≤ depth →
      w.objects[i]? = some (.node n) → p i → w.Spans p (.ref i) (.node i us) →
        q (.ref i) (.node i us)) :
    List.Forall₂ q vs ts := by
  refine forall₂_imp_of_mem hsub fun t ht v hv => ?_
  have hle := Nat.le_trans (Skeleton.height_le_heightOf ht) hheight
  cases hv with
  | text s => exact text s
  | node hn hfreezable hi hchildren hlist hl hsub =>
    exact node _ _ _ ht hle hn hi (.node hn hfreezable hi hchildren hlist hl hsub)

/-- The nodes of a tree are among those that are given. -/
theorem Spans.of_mem_numbers (h : w.Spans p v t) {i : Nat} (hi : i ∈ t.numbers) : p i := by
  induction t generalizing v with
  | text s => cases hi
  | node j ts ih =>
    cases h with
    | node hn hfreezable hj hchildren hlist hl hsub =>
      rw [Skeleton.numbers, List.mem_cons] at hi
      rcases hi with rfl | hi
      · exact hj
      · obtain ⟨t, ht, hit⟩ := Skeleton.mem_numbersOf.mp hi
        obtain ⟨v, -, hv⟩ := exists_mem_of_forall₂ hsub ht
        exact ih t ht hv hit

/-- A tree is the same tree as long as none of its objects is changed. -/
theorem Spans.later {lo : Nat} (h : w.Spans p v t) (hkeep : w.Retains lo w')
    (hlo : ∀ i, p i → lo ≤ i) (hp : ∀ i, p i → p' i) : w'.Spans p' v t := by
  induction t generalizing v with
  | text s =>
    cases h
    exact .text s
  | node i ts ih =>
    cases h with
    | node hn hfreezable hi hchildren hlist hl hsub =>
      exact .node (hkeep.kept (hlo _ hi) hn) hfreezable (hp _ hi) hchildren
        (hkeep.kept (hlo _ hl) hlist) (hp _ hl)
        (forall₂_imp_of_mem hsub fun t ht _ h => ih t ht h)

/-- The nodes of a tree are there and can be frozen. -/
theorem Spans.exists_node (h : w.Spans p v t) {i : Nat} (hi : i ∈ t.numbers) :
    ∃ n, w.objects[i]? = some (.node n) ∧ n.Freezable := by
  induction t generalizing v with
  | text s => cases hi
  | node j ts ih =>
    cases h with
    | node hn hfreezable _ _ _ _ hsub =>
      rcases List.mem_cons.mp hi with rfl | hi
      · exact ⟨_, hn, hfreezable⟩
      · obtain ⟨t, ht, hit⟩ := Skeleton.mem_numbersOf.mp hi
        obtain ⟨v, -, hv⟩ := exists_mem_of_forall₂ hsub ht
        exact ih t ht hv hit

/-- Below a node there are trees of all smaller heights. -/
theorem Spans.exists_height (h : w.Spans p v t) {k : Nat} (hk : 0 < k) (hle : k ≤ t.height) :
    ∃ i t', w.Spans p (.ref i) t' ∧ t'.height = k ∧ i < w.objects.size := by
  induction t generalizing v with
  | text s =>
    rw [Skeleton.height] at hle
    omega
  | node i ts ih =>
    cases h with
    | node hn hfreezable hi hchildren hlist hl hsub =>
      by_cases heq : k = (Skeleton.node i ts).height
      · exact ⟨i, _, .node hn hfreezable hi hchildren hlist hl hsub, heq.symm, lt_size hn⟩
      · rw [Skeleton.height] at hle heq
        obtain ⟨t, ht, hkt⟩ := Skeleton.exists_le_height hk (by omega : k ≤ Skeleton.heightOf ts)
        obtain ⟨v, -, hv⟩ := exists_mem_of_forall₂ hsub ht
        exact ih t ht hv hkt

/-- No more nodes lie below one another than there are objects, as no two of them are the same. -/
theorem Spans.height_le (h : w.Spans p v t) : t.height ≤ w.objects.size := by
  have hbelow : ∀ k : Fin t.height, ∃ i t', w.Spans p (.ref i) t' ∧ t'.height = k + 1 ∧
      i < w.objects.size := fun k => h.exists_height (Nat.succ_pos k) k.isLt
  choose number tree hspans hheight hlt using hbelow
  have hinjective : Function.Injective fun k => (⟨number k, hlt k⟩ : Fin w.objects.size) := by
    intro k k' heq
    have hnumber : number k = number k' := congrArg Fin.val heq
    have hsame : tree k = tree k' := (hspans k).unique (hnumber ▸ hspans k')
    have hk := hheight k
    rw [hsame, hheight k'] at hk
    exact Fin.ext (Nat.succ.inj hk).symm
  simpa using Fintype.card_le_of_injective _ hinjective

end World

end Markup
