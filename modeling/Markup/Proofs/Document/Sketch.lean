import Markup.Proofs.Document.Following
import Markup.Proofs.Store.Unfolding
import Markup.Proofs.Tree.InWorld

/-!
# Trees with children of any kind

The children of a node can be any values.  A `Sketch` is a tree whose nodes are well-typed except
that some of their children may be neither texts nor nodes.  `Sketch.strays` are these children in
document order; a sketch without any is a tree (`Sketch.tree?_eq_none_iff`).  `Sketch.calls` are
the calls on a document that come before the first of them.

`Term.Draws` relates a value unfolded to its sketch.  Like a tree, a sketch goes on being drawn as
long as nodes, lists and maps stay what they are (`World.Draws.keep`).
-/

namespace Markup

/-- A well-typed node with all that is below it, a text, or another value in a child's place. -/
inductive Sketch (α : Type) where
  | text (s : String)
  | node (h : Head) (children : List (Sketch α))
  | stray (x : α)

namespace Sketch

variable {α β : Type}

/-- Sketches are gone through with the children of a node as a whole. -/
@[elab_as_elim, induction_eliminator]
theorem ind {p : Sketch α → Prop} (text : ∀ s, p (.text s))
    (node : ∀ h children, (∀ c ∈ children, p c) → p (.node h children)) (stray : ∀ x, p (.stray x))
    (sk : Sketch α) : p sk := by
  refine sk.rec (motive_2 := fun children => ∀ c ∈ children, p c) text node stray ?_ ?_
  · intro c hc
    cases hc
  · intro c cs hc hcs d hd
    rcases List.mem_cons.mp hd with rfl | hd
    · exact hc
    · exact hcs d hd

/-! ## What a sketch has in it -/

mutual

/-- The children that are neither texts nor nodes, in document order. -/
def strays : Sketch α → List α
  | .text _ => []
  | .node _ children => straysOf children
  | .stray x => [x]

/-- The children in some sketches that are neither texts nor nodes, in document order. -/
def straysOf : List (Sketch α) → List α
  | [] => []
  | c :: cs => c.strays ++ straysOf cs

end

mutual

/-- The nodes in document order, without their children. -/
def heads : Sketch α → List Head
  | .node h children => h :: headsOf children
  | _ => []

/-- The nodes in some sketches in document order, without their children. -/
def headsOf : List (Sketch α) → List Head
  | [] => []
  | c :: cs => c.heads ++ headsOf cs

end

/-- The listeners of all nodes are of some sort. -/
def Hears (sort : Value → Prop) (sk : Sketch α) : Prop := ∀ h ∈ sk.heads, h.Hears sort

mutual

/-- The tree that a sketch is if all its children are texts or nodes. -/
def tree? : Sketch α → Option Tree
  | .text s => some (.text s)
  | .node h children => (trees? children).map (.node h)
  | .stray _ => none

/-- The trees that some sketches are if all their children are texts or nodes. -/
def trees? : List (Sketch α) → Option (List Tree)
  | [] => some []
  | c :: cs =>
    match c.tree?, trees? cs with
    | some t, some ts => some (t :: ts)
    | _, _ => none

end

mutual

/-- The calls on a document up to the first child that is neither a text nor a node. -/
def calls : Sketch α → List DocumentCall
  | .text s => [.createTextNode (.text s)]
  | .node h children => h.calls ++ h.contentCalls ++ callsBelow h children
  | .stray _ => []

/-- The calls for the children of a node up to the first one that cannot be completed. -/
def callsBelow (h : Head) : List (Sketch α) → List DocumentCall
  | [] => []
  | c :: cs =>
    match c.tree? with
    | some t => t.calls ++ h.appendCall t.label :: callsBelow h cs
    | none => c.calls

end

mutual

/-- The same sketch with other values in the place of children. -/
def map (f : α → β) : Sketch α → Sketch β
  | .text s => .text s
  | .node h children => .node h (mapAll f children)
  | .stray x => .stray (f x)

/-- The same sketches with other values in the place of children. -/
def mapAll (f : α → β) : List (Sketch α) → List (Sketch β)
  | [] => []
  | c :: cs => c.map f :: mapAll f cs

end

mutual

/-- How many nodes lie below one another at most. -/
def height : Sketch α → Nat
  | .node _ children => heightOf children + 1
  | _ => 0

/-- The greatest height of some sketches. -/
def heightOf : List (Sketch α) → Nat
  | [] => 0
  | c :: cs => max c.height (heightOf cs)

end

/-! ## Sketches that are trees -/

theorem Hears.head {sort : Value → Prop} {h : Head} {children : List (Sketch α)}
    (hs : (node h children).Hears sort) : h.Hears sort :=
  hs h (by rw [heads]; exact List.mem_cons_self)

theorem mem_headsOf {cs : List (Sketch α)} {c : Sketch α} {h : Head} (hc : c ∈ cs)
    (hh : h ∈ c.heads) : h ∈ headsOf cs := by
  induction cs with
  | nil => cases hc
  | cons d cs ih =>
    rw [headsOf, List.mem_append]
    rcases List.mem_cons.mp hc with rfl | hc
    · exact .inl hh
    · exact .inr (ih hc)

theorem Hears.below {sort : Value → Prop} {h : Head} {children : List (Sketch α)}
    (hs : (node h children).Hears sort) : ∀ c ∈ children, c.Hears sort := by
  intro c hc g hg
  refine hs g ?_
  rw [heads]
  exact List.mem_cons_of_mem _ (mem_headsOf hc hg)

theorem height_le_heightOf {c : Sketch α} {cs : List (Sketch α)} (h : c ∈ cs) :
    c.height ≤ heightOf cs := by
  induction cs with
  | nil => cases h
  | cons d cs ih =>
    rw [heightOf]
    rcases List.mem_cons.mp h with rfl | h
    · exact Nat.le_max_left _ _
    · exact Nat.le_trans (ih h) (Nat.le_max_right _ _)

theorem trees?_cons_some {c : Sketch α} {cs : List (Sketch α)} {ts : List Tree}
    (h : trees? (c :: cs) = some ts) :
    ∃ t us, c.tree? = some t ∧ trees? cs = some us ∧ ts = t :: us := by
  rw [trees?] at h
  split at h
  · next t us ht hus => exact ⟨t, us, ht, hus, (Option.some.inj h).symm⟩
  · cases h

theorem forall₂_of_trees? {cs : List (Sketch α)} {ts : List Tree} (h : trees? cs = some ts) :
    List.Forall₂ (fun c t => c.tree? = some t) cs ts := by
  induction cs generalizing ts with
  | nil =>
    cases h
    exact .nil
  | cons c cs ih =>
    obtain ⟨t, us, ht, hus, rfl⟩ := trees?_cons_some h
    exact .cons ht (ih hus)

/-- What is below a node that is a tree are trees. -/
theorem exists_of_tree?_node {h : Head} {children : List (Sketch α)} {tree : Tree}
    (ht : (node h children).tree? = some tree) :
    ∃ ts, tree = .node h ts ∧ List.Forall₂ (fun c t => c.tree? = some t) children ts := by
  rw [tree?, Option.map_eq_some_iff] at ht
  obtain ⟨ts, hts, rfl⟩ := ht
  exact ⟨ts, rfl, forall₂_of_trees? hts⟩

/-- A sketch is a tree exactly if all children in it are texts or nodes. -/
theorem tree?_eq_none_iff {sk : Sketch α} : sk.tree? = none ↔ sk.strays ≠ [] := by
  induction sk with
  | text s => simp [tree?, strays]
  | stray x => simp [tree?, strays]
  | node h children ih =>
    rw [tree?, strays, Option.map_eq_none_iff]
    induction children with
    | nil => simp [trees?, straysOf]
    | cons c cs ihcs =>
      have hc : c.tree? = none ↔ ¬ c.strays = [] := ih c List.mem_cons_self
      have hcs : trees? cs = none ↔ ¬ straysOf cs = [] :=
        ihcs fun d hd => ih d (List.mem_cons_of_mem c hd)
      rw [trees?, straysOf, Ne, List.append_eq_nil_iff, not_and_or, ← hc, ← hcs]
      cases c.tree? <;> cases trees? cs <;> simp

theorem strays_of_tree? {sk : Sketch α} {tree : Tree} (ht : sk.tree? = some tree) :
    sk.strays = [] := by
  by_contra hne
  rw [tree?_eq_none_iff.mpr hne] at ht
  cases ht

theorem exists_tree?_of_strays {sk : Sketch α} (h : sk.strays = []) :
    ∃ tree, sk.tree? = some tree :=
  Option.ne_none_iff_exists'.mp fun hnone => tree?_eq_none_iff.mp hnone h

theorem height_of_tree? {sk : Sketch α} {tree : Tree} (ht : sk.tree? = some tree) :
    tree.height = sk.height := by
  induction sk generalizing tree with
  | text s =>
    cases ht
    rfl
  | stray x => cases ht
  | node h children ih =>
    obtain ⟨ts, rfl, hts⟩ := exists_of_tree?_node ht
    have hbelow : Tree.heightOf ts = heightOf children := by
      clear ht
      induction hts with
      | nil => rfl
      | @cons c t cs ts hc _ ihcs =>
        rw [Tree.heightOf, heightOf, ih c List.mem_cons_self hc,
          ihcs fun d hd => ih d (List.mem_cons_of_mem c hd)]
    rw [Tree.height, height, hbelow]

theorem callsBelow_of_trees? {h : Head} {cs : List (Sketch α)} {ts : List Tree}
    (hts : List.Forall₂ (fun c t => c.tree? = some t) cs ts) :
    callsBelow h cs = Tree.callsBelow h ts := by
  induction hts with
  | nil => rfl
  | cons hc _ ih => rw [callsBelow, Tree.callsBelow, hc, ih]

/-- The calls of a sketch that is a tree are those of the tree. -/
theorem calls_of_tree? {sk : Sketch α} {tree : Tree} (ht : sk.tree? = some tree) :
    sk.calls = tree.calls := by
  cases sk with
  | text s =>
    cases ht
    rfl
  | stray x => cases ht
  | node h children =>
    obtain ⟨ts, rfl, hts⟩ := exists_of_tree?_node ht
    rw [calls, Tree.calls, callsBelow_of_trees? hts]

theorem Hears.of_tree? {sort : Value → Prop} {sk : Sketch α} {tree : Tree} (hs : sk.Hears sort)
    (ht : sk.tree? = some tree) : tree.Hears sort := by
  induction sk generalizing tree with
  | text s =>
    cases ht
    intro n hn
    cases hn
  | stray x => cases ht
  | node h children ih =>
    obtain ⟨ts, rfl, hts⟩ := exists_of_tree?_node ht
    intro n hn
    rw [Tree.nodes_node, List.mem_cons] at hn
    rcases hn with rfl | hn
    · exact hs.head
    · obtain ⟨t, hmem, hn⟩ := List.mem_flatMap.mp hn
      obtain ⟨c, hc, htree⟩ := exists_mem_of_forall₂ hts hmem
      exact ih c hc (hs.below c hc) htree n hn

/-! ## Other values in the place of children -/

theorem mapAll_eq (f : α → β) (cs : List (Sketch α)) : mapAll f cs = cs.map (map f) := by
  induction cs with
  | nil => rfl
  | cons c cs ih => rw [mapAll, ih, List.map_cons]

theorem straysOf_mapAll (f : α → β) {cs : List (Sketch α)}
    (h : ∀ c ∈ cs, (c.map f).strays = c.strays.map f) :
    straysOf (mapAll f cs) = (straysOf cs).map f := by
  induction cs with
  | nil => rfl
  | cons c cs ih =>
    rw [mapAll, straysOf, straysOf, List.map_append, h c List.mem_cons_self,
      ih fun d hd => h d (List.mem_cons_of_mem c hd)]

theorem strays_map (f : α → β) (sk : Sketch α) : (sk.map f).strays = sk.strays.map f := by
  induction sk with
  | text s => rfl
  | stray x => rfl
  | node h children ih => rw [map, strays, strays, straysOf_mapAll f ih]

theorem trees?_mapAll (f : α → β) {cs : List (Sketch α)}
    (h : ∀ c ∈ cs, (c.map f).tree? = c.tree?) : trees? (mapAll f cs) = trees? cs := by
  induction cs with
  | nil => rfl
  | cons c cs ih =>
    rw [mapAll, trees?, trees?, h c List.mem_cons_self,
      ih fun d hd => h d (List.mem_cons_of_mem c hd)]

theorem tree?_map (f : α → β) (sk : Sketch α) : (sk.map f).tree? = sk.tree? := by
  induction sk with
  | text s => rfl
  | stray x => rfl
  | node h children ih => rw [map, tree?, tree?, trees?_mapAll f ih]

theorem calls_map (f : α → β) (sk : Sketch α) : (sk.map f).calls = sk.calls := by
  induction sk with
  | text s => rfl
  | stray x => rfl
  | node h children ih =>
    have hbelow : callsBelow h (mapAll f children) = callsBelow h children := by
      induction children with
      | nil => rfl
      | cons c cs ihcs =>
        rw [mapAll, callsBelow, callsBelow, tree?_map, ih c List.mem_cons_self,
          ihcs fun d hd => ih d (List.mem_cons_of_mem c hd)]
    rw [map, calls, calls, hbelow]

theorem height_map (f : α → β) (sk : Sketch α) : (sk.map f).height = sk.height := by
  induction sk with
  | text s => rfl
  | stray x => rfl
  | node h children ih =>
    have hbelow : heightOf (mapAll f children) = heightOf children := by
      induction children with
      | nil => rfl
      | cons c cs ihcs =>
        rw [mapAll, heightOf, heightOf, ih c List.mem_cons_self,
          ihcs fun d hd => ih d (List.mem_cons_of_mem c hd)]
    rw [map, height, height, hbelow]

theorem heads_map (f : α → β) (sk : Sketch α) : (sk.map f).heads = sk.heads := by
  induction sk with
  | text s => rfl
  | stray x => rfl
  | node h children ih =>
    have hbelow : headsOf (mapAll f children) = headsOf children := by
      induction children with
      | nil => rfl
      | cons c cs ihcs =>
        rw [mapAll, headsOf, headsOf, ih c List.mem_cons_self,
          ihcs fun d hd => ih d (List.mem_cons_of_mem c hd)]
    rw [map, heads, heads, hbelow]

end Sketch

/-! ## Sketches of what is unfolded -/

namespace Term

/-- A term stands for a child and is neither a text nor a node. -/
inductive Stray : Term → Prop
  | atom {a : Atom} (h : ∀ s, a ≠ .text s) : Stray (.atom a)
  | object {id : Nat} {o : Object Term} (h : ∀ n, o ≠ .node n) : Stray (.object id o)

/-- A term is well-typed up to the children that are neither texts nor nodes. -/
inductive Draws : Term → Sketch Term → Prop
  | text (s : String) : Draws (.text s) (.text s)
  | node {id : Nat} {n : Node Term} {h : Head} {list : Nat} {items : List Term}
      {children : List (Sketch Term)} (fields : n.Shows h) (holder : n.children = .list list items)
      (below : List.Forall₂ Draws items children) : Draws (.node id n) (.node h children)
  | stray {t : Term} (h : t.Stray) : Draws t (.stray t)

/-- What draws a node is one. -/
theorem Draws.exists_node {t : Term} {h : Head} {children : List (Sketch Term)}
    (s : t.Draws (.node h children)) : ∃ id n list items, t = .node id n ∧ n.Shows h ∧
      n.children = .list list items ∧ List.Forall₂ Term.Draws items children := by
  cases s with
  | node fields holder below => exact ⟨_, _, _, _, rfl, fields, holder, below⟩

theorem Draws.eq_of_stray {t u : Term} (s : t.Draws (.stray u)) : u = t := by
  cases s
  rfl

theorem Draws.stray_of {t u : Term} (s : t.Draws (.stray u)) : t.Stray := by
  cases s with
  | stray h => exact h

/-- What draws a tree shows it. -/
theorem Draws.shows {t : Term} {sk : Sketch Term} {tree : Tree} (s : t.Draws sk)
    (ht : sk.tree? = some tree) : t.Shows tree := by
  induction sk generalizing t tree with
  | text x =>
    cases s
    cases ht
    exact .text x
  | stray u => cases ht
  | node h children ih =>
    obtain ⟨id, n, list, items, rfl, fields, holder, below⟩ := s.exists_node
    obtain ⟨ts, rfl, hts⟩ := Sketch.exists_of_tree?_node ht
    refine .node fields holder ?_
    clear holder s ht
    induction below generalizing ts with
    | nil =>
      cases hts
      exact .nil
    | @cons item c items cs hc _ ihcs =>
      cases hts with
      | cons htc hts =>
        exact .cons (ih c List.mem_cons_self hc htc)
          (ihcs (fun d hd => ih d (List.mem_cons_of_mem c hd)) _ hts)

end Term

/-! ## Writing -/

namespace Html

theorem renderChild_of_stray {t : Term} (h : t.Stray) :
    renderChild t = .error (invalidChild t) := by
  cases h with
  | @atom a h =>
    cases a with
    | text s => exact absurd rfl (h s)
    | _ => rfl
  | @object id o h =>
    cases o with
    | node n => exact absurd rfl (h n)
    | _ => rfl

/-- What does not draw a tree is refused for the first child that is neither a text nor a node. -/
theorem renderChild_of_draws {t u : Term} {sk : Sketch Term} {rest : List Term} (s : t.Draws sk)
    (hu : sk.strays = u :: rest) : renderChild t = .error (invalidChild u) := by
  induction sk generalizing t rest with
  | text x => cases hu
  | stray x =>
    cases hu
    cases s with
    | stray h => exact renderChild_of_stray h
  | node h children ih =>
    obtain ⟨id, n, list, items, rfl, fields, holder, below⟩ := s.exists_node
    rw [Sketch.strays] at hu
    have hitems : renderItems items = .error (invalidChild u) := by
      clear holder s fields
      induction below generalizing rest with
      | nil => cases hu
      | @cons item c items cs hc _ ihcs =>
        rw [renderItems]
        cases hstrays : c.strays with
        | cons x xs =>
          rw [Sketch.straysOf, hstrays] at hu
          cases hu
          rw [ih c List.mem_cons_self hc hstrays]
          rfl
        | nil =>
          obtain ⟨tree, htree⟩ := Sketch.exists_tree?_of_strays hstrays
          rw [Sketch.straysOf, hstrays, List.nil_append] at hu
          rw [renderChild_of_shows (hc.shows htree), ok_bind,
            ihcs (fun d hd => ih d (List.mem_cons_of_mem c hd)) hu]
          rfl
    have htruthy : n.children.truthy = true := by
      rw [holder]
      cases below with
      | nil => cases hu
      | cons _ _ => rfl
    have hchildren : renderChildren n.children = .error (invalidChild u) := by
      rw [holder, renderChildren, hitems]
    obtain ⟨name, isVoid, nodeId, classes, style, listeners, attrs, content, held⟩ := n
    rw [renderChild, renderNode, shownPairs_of_shows fields, contentText_of_shows fields,
      hchildren, htruthy, show name = .text h.name from fields.name]
    simp
    rfl

end Html

/-! ## Sketches in a world -/

/-- An object is of a kind that trees are made of. -/
def Object.InTrees : Object Value → Prop
  | .node _ | .list _ | .map _ => True
  | _ => False

namespace World

/-- A value of a world stands for a child and is neither a text nor a node. -/
inductive Stray (w : World) : Value → Prop
  | atom {a : Atom} (h : ∀ s, a ≠ .text s) : Stray w (.atom a)
  | object {id : Nat} {o : Object Value} (object : w.objects[id]? = some o)
      (h : ∀ n, o ≠ .node n) : Stray w (.ref id)

/-- A value is well-typed up to the children that are neither texts nor nodes. -/
inductive Draws (w : World) : Value → Sketch Value → Prop
  | text (s : String) : Draws w (.text s) (.text s)
  | node {id : Nat} {n : Node Value} {h : Head} {vs : List Value} {children : List (Sketch Value)}
      (object : w.objects[id]? = some (.node n)) (fields : w.HasFields n h)
      (holder : w.HasList n.children vs) (below : List.Forall₂ (Draws w) vs children) :
      Draws w (.ref id) (.node h children)
  | stray {v : Value} (h : w.Stray v) : Draws w v (.stray v)

variable {w w' : World} {v : Value} {sk : Sketch Value} {depth : Nat}

theorem Draws.exists_node {h : Head} {children : List (Sketch Value)}
    (s : w.Draws v (.node h children)) : ∃ id n vs, v = .ref id ∧
      w.objects[id]? = some (.node n) ∧ w.HasFields n h ∧ w.HasList n.children vs ∧
      List.Forall₂ w.Draws vs children := by
  cases s with
  | node object fields holder below => exact ⟨_, _, _, rfl, object, fields, holder, below⟩

/-- What draws a tree shows it. -/
theorem Draws.shows {tree : Tree} (s : w.Draws v sk) (ht : sk.tree? = some tree) :
    w.Shows v tree := by
  induction sk generalizing v tree with
  | text x =>
    cases s
    cases ht
    exact .text x
  | stray u => cases ht
  | node h children ih =>
    obtain ⟨id, n, vs, rfl, object, fields, holder, below⟩ := s.exists_node
    obtain ⟨ts, rfl, hts⟩ := Sketch.exists_of_tree?_node ht
    refine .node object fields holder ?_
    clear holder s ht
    induction below generalizing ts with
    | nil =>
      cases hts
      exact .nil
    | @cons v c vs cs hc _ ihcs =>
      cases hts with
      | cons htc hts =>
        exact .cons (ih c List.mem_cons_self hc htc)
          (ihcs (fun d hd => ih d (List.mem_cons_of_mem c hd)) _ hts)

/-- A sketch stays what it is as long as nodes, lists and maps do and nothing becomes a node. -/
theorem Draws.keep (s : w.Draws v sk) (hkeep : w.Keeps w')
    (hstrays : ∀ u, w.Stray u → w'.Stray u) : w'.Draws v sk := by
  induction sk generalizing v with
  | text x =>
    cases s
    exact .text x
  | stray u =>
    cases s with
    | stray h => exact .stray (hstrays _ h)
  | node h children ih =>
    obtain ⟨id, n, vs, rfl, object, fields, holder, below⟩ := s.exists_node
    exact .node (hkeep.node id n object) (fields.keep hkeep) (holder.keep hkeep)
      (forall₂_imp_of_mem below fun c hc _ hdraws => ih c hc hdraws)

theorem Stray.of_changes {opened : Nat → Prop} (h : w.Stray v) (hchanges : w.ChangesOnly opened w')
    (hafter : ∀ i n, opened i → w'.objects[i]? ≠ some (.node n)) : w'.Stray v := by
  cases h with
  | atom h => exact .atom h
  | @object id o object h =>
    by_cases hid : opened id
    · obtain ⟨o', ho'⟩ :=
        exists_of_lt_size (Nat.lt_of_lt_of_le (lt_size object) hchanges.size_le)
      refine .object ho' fun n hn => hafter id n hid ?_
      rw [ho', hn]
    · exact .object (hchanges.spared object hid) h

/-- A sketch stays what it is as long as it is not made of what is changed. -/
theorem Draws.of_changes {opened : Nat → Prop} (s : w.Draws v sk)
    (hchanges : w.ChangesOnly opened w')
    (hbefore : ∀ i o, opened i → w.objects[i]? = some o → ¬ o.InTrees)
    (hafter : ∀ i n, opened i → w'.objects[i]? ≠ some (.node n)) : w'.Draws v sk := by
  have hkept : ∀ {i : Nat} {o : Object Value}, w.objects[i]? = some o → o.InTrees →
      w'.objects[i]? = some o :=
    fun {i o} ho hin => hchanges.spared ho fun hi => hbefore i o hi ho hin
  exact s.keep ⟨fun _ _ h => hkept h trivial, fun _ _ h => hkept h trivial,
    fun _ _ h => hkept h trivial⟩ fun u hu => hu.of_changes hchanges hafter

/-! ### Reading them -/

theorem Stray.unfold (h : w.Stray v) (depth : Nat) : (w.unfold true (depth + 1) v).Stray := by
  cases h with
  | atom h =>
    rw [unfold_atom]
    exact .atom h
  | @object id o object h =>
    rw [unfold_ref object]
    refine .object fun n hn => ?_
    cases o with
    | node m => exact h m rfl
    | _ => cases hn

/-- What is drawn by the objects is drawn when a value is unfolded far enough. -/
theorem Draws.unfold (s : w.Draws v sk) (hdepth : 2 * sk.height ≤ depth) :
    ∃ sk', (w.unfold true (depth + 1) v).Draws sk' ∧ sk'.map Term.toValue = sk := by
  induction sk generalizing v depth with
  | text x =>
    cases s
    exact ⟨.text x, by rw [unfold_atom]; exact .text x, rfl⟩
  | stray u =>
    cases s with
    | stray h => exact ⟨.stray _, .stray (h.unfold depth), by rw [Sketch.map, toValue_unfold]⟩
  | node h children ih =>
    obtain ⟨id, n, vs, rfl, object, fields, holder, below⟩ := s.exists_node
    rw [Sketch.height] at hdepth
    obtain ⟨k, rfl⟩ := Nat.exists_eq_add_of_le' (show 2 ≤ depth by omega)
    obtain ⟨list, hlist⟩ := holder.unfold_items (k + 1)
    have hbelow : ∃ children', List.Forall₂ Term.Draws (vs.map (w.unfold true (k + 1))) children' ∧
        Sketch.mapAll Term.toValue children' = children := by
      clear s holder hlist
      induction below with
      | nil => exact ⟨[], .nil, rfl⟩
      | @cons v c vs cs hc _ ihcs =>
        rw [Sketch.heightOf] at hdepth
        obtain ⟨c', hdraws, hmap⟩ := ih c List.mem_cons_self hc (show 2 * c.height ≤ k by omega)
        obtain ⟨cs', hall, hmapAll⟩ := ihcs (fun d hd => ih d (List.mem_cons_of_mem c hd))
          (by omega)
        exact ⟨c' :: cs', .cons hdraws hall, by rw [Sketch.mapAll, hmap, hmapAll]⟩
    obtain ⟨children', hall, hmapAll⟩ := hbelow
    refine ⟨.node h children', ?_, by rw [Sketch.map, hmapAll]⟩
    rw [unfold_ref object]
    exact .node (fields.shows_unfold k) hlist hall

/-- A sketch is no higher than it was unfolded. -/
theorem height_le_of_draws {sk : Sketch Term} (s : (w.unfold true depth v).Draws sk) :
    2 * sk.height ≤ depth := by
  induction sk generalizing v depth with
  | text x => exact Nat.zero_le _
  | stray u => exact Nat.zero_le _
  | node h children ih =>
    obtain ⟨id, n, list, items, hnode, fields, holder, below⟩ := s.exists_node
    obtain ⟨k, m, rfl, rfl, object, rfl⟩ := unfoldWith_eq_node hnode
    obtain ⟨j, vs, rfl, -, hitems, rfl⟩ := unfoldWith_eq_list holder
    have hbelow : 2 * Sketch.heightOf children ≤ j := by
      clear s hnode holder hitems
      have hall := List.forall₂_map_left_iff.mp below
      clear below
      induction hall with
      | nil => exact Nat.zero_le _
      | @cons v c vs cs hc _ ihcs =>
        have hfirst := ih c List.mem_cons_self hc
        have hrest := ihcs fun d hd => ih d (List.mem_cons_of_mem c hd)
        rw [Sketch.heightOf]
        omega
    rw [Sketch.height]
    omega

end World

end Markup
