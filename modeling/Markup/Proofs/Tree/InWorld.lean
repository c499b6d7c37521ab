import Markup.Proofs.Store
import Markup.Proofs.Tree

/-!
# Trees in a world

`World.Shows` says that a value shows a tree by the objects of the world alone, without unfolding
anything.  What is shown when a value is unfolded is shown in this sense too
(`World.Shows.of_unfold`), and it goes on being shown as long as nodes, lists and maps stay what
they are (`World.Shows.keep`), whatever else is made or changed.
-/

namespace Markup

namespace World

/-- A value is a list of the given values. -/
def HasList (w : World) (v : Value) (vs : List Value) : Prop :=
  ∃ id, v = .ref id ∧ w.objects[id]? = some (.list vs)

/-- A value is a map of the given entries. -/
def HasMap (w : World) (v : Value) (es : List (Value × Value)) : Prop :=
  ∃ id, v = .ref id ∧ w.objects[id]? = some (.map es)

/-- A value is the given style, or missing. -/
def HasStyle (w : World) (v : Value) : Option Style → Prop
  | .none => v = .none
  | some s => w.HasMap v (s.map fun e => (.text e.1, .text e.2))

/-- A value is a map from the given events to lists of the given listeners. -/
def HasListeners (w : World) (v : Value) (listeners : Entries String (List Value)) : Prop :=
  ∃ rows, w.HasMap v rows ∧
    List.Forall₂ (fun row l => row.1 = .text l.1 ∧ w.HasList row.2 l.2) rows listeners

/-- A node has the fields that a head says. -/
structure HasFields (w : World) (n : Node Value) (h : Head) : Prop where
  name : n.name = .text h.name
  isVoid : n.isVoid = .bool h.isVoid
  id : n.id = Operation.textOrNone h.id
  classes : w.HasList n.classes (h.classes.map .text)
  style : w.HasStyle n.style h.style
  listeners : w.HasListeners n.listeners h.listeners
  attrs : w.HasMap n.attrs (h.attrs.map fun e => (.text e.1, .atom e.2.toAtom))
  content : n.content = Operation.textOrNone h.content

/-- A value is a well-typed node or a text, and this is the tree of it. -/
inductive Shows (w : World) : Value → Tree → Prop
  | text (s : String) : Shows w (.text s) (.text s)
  | node {id : Nat} {n : Node Value} {h : Head} {vs : List Value} {children : List Tree}
      (object : w.objects[id]? = some (.node n)) (fields : w.HasFields n h)
      (holder : w.HasList n.children vs) (below : List.Forall₂ (Shows w) vs children) :
      Shows w (.ref id) (.node h children)

variable {w w' : World} {closed : Bool} {aside : Value → Term} {depth : Nat} {v : Value}

/-! ## From what is unfolded to the objects -/

theorem unfoldWith_eq_atom {a : Atom} (h : w.unfoldWith closed aside depth v = .atom a) :
    v = .atom a := by
  have hv := w.toValue_unfoldWith closed aside depth v
  rw [h] at hv
  exact hv.symm

theorem unfoldWith_eq_ofText? {s : Option String}
    (h : w.unfoldWith closed aside depth v = .ofText? s) : v = Operation.textOrNone s := by
  cases s <;> exact unfoldWith_eq_atom h

/-- What unfolds to an object of a known kind is that object. -/
theorem unfoldWith_eq_object {id : Nat} {o' : Object Term}
    (h : w.unfoldWith closed aside depth v = .object id o')
    (hdeep : o' ≠ .unseen) : ∃ n o, depth = n + 1 ∧ v = .ref id ∧
      w.objects[id]? = some o ∧ o' = o.mapParts (w.unfoldWith closed aside n)
        (if closed then aside else w.unfoldWith closed aside n) aside := by
  cases v with
  | atom a => simp at h
  | ref i =>
    cases depth with
    | zero =>
      rw [unfoldWith, tooDeep] at h
      cases h
      exact absurd rfl hdeep
    | succ n =>
      rw [unfoldWith] at h
      cases ho : w.objects[i]? with
      | none =>
        rw [ho] at h
        cases h
        exact absurd rfl hdeep
      | some o =>
        rw [ho] at h
        cases h
        exact ⟨n, o, rfl, rfl, ho, rfl⟩

theorem unfoldWith_eq_list {id : Nat} {ts : List Term}
    (h : w.unfoldWith closed aside depth v = .list id ts) : ∃ n vs, depth = n + 1 ∧
      v = .ref id ∧ w.objects[id]? = some (.list vs) ∧
      ts = vs.map (w.unfoldWith closed aside n) := by
  obtain ⟨n, o, hn, hv, ho, hparts⟩ := unfoldWith_eq_object h (by simp)
  cases o <;> simp only [Object.mapParts, reduceCtorEq, Object.list.injEq] at hparts
  exact ⟨n, _, hn, hv, ho, hparts⟩

theorem unfoldWith_eq_map {id : Nat} {es : List (Term × Term)}
    (h : w.unfoldWith closed aside depth v = .map id es) : ∃ n entries, depth = n + 1 ∧
      v = .ref id ∧ w.objects[id]? = some (.map entries) ∧
      es = entries.map (Prod.map (w.unfoldWith closed aside n) (w.unfoldWith closed aside n)) := by
  obtain ⟨n, o, hn, hv, ho, hparts⟩ := unfoldWith_eq_object h (by simp)
  cases o <;> simp only [Object.mapParts, reduceCtorEq, Object.map.injEq] at hparts
  exact ⟨n, _, hn, hv, ho, hparts⟩

theorem unfoldWith_eq_node {id : Nat} {t : Node Term}
    (h : w.unfoldWith closed aside depth v = .node id t) : ∃ n m, depth = n + 1 ∧
      v = .ref id ∧ w.objects[id]? = some (.node m) ∧ t = m.map (w.unfoldWith closed aside n) := by
  obtain ⟨n, o, hn, hv, ho, hparts⟩ := unfoldWith_eq_object h (by simp)
  cases o <;> simp only [Object.mapParts, reduceCtorEq, Object.node.injEq] at hparts
  exact ⟨n, _, hn, hv, ho, hparts⟩

/-- Values that unfold to atoms are these atoms. -/
theorem map_unfoldWith_eq_atoms {α : Type} {f : α → Atom} {as : List α} {vs : List Value}
    (h : vs.map (w.unfoldWith closed aside depth) = as.map fun a => .atom (f a)) :
    vs = as.map fun a => .atom (f a) := by
  induction as generalizing vs with
  | nil => simpa using h
  | cons a as ih =>
    cases vs with
    | nil => cases h
    | cons v vs =>
      rw [List.map_cons, List.map_cons, List.cons.injEq] at h
      rw [List.map_cons, unfoldWith_eq_atom h.1, ih h.2]

/-- Entries that unfold to texts with atoms are these texts with these atoms. -/
theorem map_unfoldWith_eq_entries {α : Type} {f : α → Atom} {as : List (String × α)}
    {es : List (Value × Value)}
    (h : as.map (fun a => (Term.text a.1, Term.atom (f a.2))) =
      es.map (Prod.map (w.unfoldWith closed aside depth) (w.unfoldWith closed aside depth))) :
    es = as.map fun a => (.text a.1, .atom (f a.2)) := by
  induction as generalizing es with
  | nil => simpa using h.symm
  | cons a as ih =>
    cases es with
    | nil => cases h
    | cons e es =>
      rw [List.map_cons, List.map_cons, List.cons.injEq, Prod.map, Prod.mk.injEq] at h
      obtain ⟨⟨hkey, hvalue⟩, hrest⟩ := h
      have hfirst : e = (.text a.1, .atom (f a.2)) :=
        Prod.ext (unfoldWith_eq_atom hkey.symm) (unfoldWith_eq_atom hvalue.symm)
      rw [List.map_cons, ← ih hrest, hfirst]

theorem hasList_of_lists {vs : List Value}
    (h : (w.unfoldWith closed aside depth v).Lists vs) : w.HasList v vs := by
  obtain ⟨id, items, hlist, rfl⟩ := h
  obtain ⟨n, us, -, hv, hobject, rfl⟩ := unfoldWith_eq_list hlist
  refine ⟨id, hv, ?_⟩
  rw [hobject, List.map_map]
  simp [Function.comp_def]

theorem hasListeners_of_shows {listeners : Entries String (List Value)}
    (h : (w.unfoldWith closed aside depth v).ShowsListeners listeners) :
    w.HasListeners v listeners := by
  obtain ⟨id, rows, hmap, hall⟩ := h
  obtain ⟨n, es, -, hv, hobject, rfl⟩ := unfoldWith_eq_map hmap
  refine ⟨es, ⟨id, hv, hobject⟩, ?_⟩
  refine (List.forall₂_map_left_iff.mp hall).imp ?_
  rintro row l ⟨hevent, hlist⟩
  exact ⟨unfoldWith_eq_atom hevent, hasList_of_lists hlist⟩

theorem hasFields_of_shows {n : Node Value} {h : Head}
    (s : (n.map (w.unfoldWith closed aside depth)).Shows h) : w.HasFields n h where
  name := unfoldWith_eq_atom s.name
  isVoid := unfoldWith_eq_atom s.isVoid
  id := unfoldWith_eq_ofText? s.id
  classes := by
    obtain ⟨id, hclasses⟩ := s.classes
    obtain ⟨_, vs, -, hv, hobject, hvs⟩ := unfoldWith_eq_list hclasses
    exact ⟨id, hv, by rw [hobject, map_unfoldWith_eq_atoms hvs.symm]⟩
  style := by
    have hstyle := s.style
    cases hs : h.style with
    | none =>
      rw [hs] at hstyle
      exact unfoldWith_eq_atom hstyle
    | some style =>
      rw [hs] at hstyle
      obtain ⟨id, hmap⟩ := hstyle
      obtain ⟨_, es, -, hv, hobject, hes⟩ := unfoldWith_eq_map hmap
      exact ⟨id, hv, by rw [hobject, map_unfoldWith_eq_entries hes]⟩
  listeners := hasListeners_of_shows s.listeners
  attrs := by
    obtain ⟨id, hattrs⟩ := s.attrs
    obtain ⟨_, es, -, hv, hobject, hes⟩ := unfoldWith_eq_map hattrs
    exact ⟨id, hv, by rw [hobject, map_unfoldWith_eq_entries hes]⟩
  content := unfoldWith_eq_ofText? s.content

/-- What is shown when a value is unfolded is shown by the objects. -/
theorem Shows.of_unfold {t : Tree} (h : (w.unfoldWith closed aside depth v).Shows t) :
    w.Shows v t := by
  induction t generalizing v depth with
  | text s =>
    generalize ht : w.unfoldWith closed aside depth v = term at h
    cases h
    rw [unfoldWith_eq_atom ht]
    exact .text s
  | node head children ih =>
    obtain ⟨id, nt, list, items, hnode, fields, holder, below⟩ := h.exists_node
    obtain ⟨n, m, -, rfl, hobject, rfl⟩ := unfoldWith_eq_node hnode
    obtain ⟨k, vs, -, hlist, hitems, rfl⟩ := unfoldWith_eq_list holder
    refine .node hobject (hasFields_of_shows fields) ⟨list, hlist, hitems⟩ ?_
    exact forall₂_imp_of_mem (List.forall₂_map_left_iff.mp below) fun c hc _ => ih c hc

/-- A tree is no higher than it was unfolded. -/
theorem height_le_of_unfold {t : Tree} (h : (w.unfoldWith closed aside depth v).Shows t) :
    t.height ≤ depth := by
  induction t generalizing v depth with
  | text s => exact Nat.zero_le _
  | node head children ih =>
    obtain ⟨id, nt, list, items, hnode, fields, holder, below⟩ := h.exists_node
    obtain ⟨n, m, rfl, rfl, hobject, rfl⟩ := unfoldWith_eq_node hnode
    obtain ⟨k, vs, rfl, hlist, hitems, rfl⟩ := unfoldWith_eq_list holder
    have hbelow := List.forall₂_map_left_iff.mp below
    have hchildren : Tree.heightOf children ≤ k := by
      clear below holder hitems h hnode
      induction hbelow with
      | nil => exact Nat.zero_le _
      | @cons v c vs cs hc _ ihcs =>
        rw [Tree.heightOf]
        exact Nat.max_le.mpr ⟨ih c List.mem_cons_self hc,
          ihcs fun d hd => ih d (List.mem_cons_of_mem c hd)⟩
    rw [Tree.height]
    omega

/-! ## What goes on being shown -/

/-- Nodes, lists and maps stay what they are. -/
structure Keeps (w w' : World) : Prop where
  node : ∀ (i : Nat) (n : Node Value), w.objects[i]? = some (.node n) →
    w'.objects[i]? = some (.node n)
  list : ∀ (i : Nat) (vs : List Value), w.objects[i]? = some (.list vs) →
    w'.objects[i]? = some (.list vs)
  map : ∀ (i : Nat) (es : List (Value × Value)), w.objects[i]? = some (.map es) →
    w'.objects[i]? = some (.map es)

theorem HasList.keep {vs : List Value} (h : w.HasList v vs) (hkeep : w.Keeps w') :
    w'.HasList v vs := by
  obtain ⟨id, hv, hid⟩ := h
  exact ⟨id, hv, hkeep.list id vs hid⟩

theorem HasMap.keep {es : List (Value × Value)} (h : w.HasMap v es) (hkeep : w.Keeps w') :
    w'.HasMap v es := by
  obtain ⟨id, hv, hid⟩ := h
  exact ⟨id, hv, hkeep.map id es hid⟩

theorem HasStyle.keep {style : Option Style} (h : w.HasStyle v style) (hkeep : w.Keeps w') :
    w'.HasStyle v style := by
  cases style with
  | none => exact h
  | some s => exact HasMap.keep h hkeep

theorem HasListeners.keep {listeners : Entries String (List Value)}
    (h : w.HasListeners v listeners) (hkeep : w.Keeps w') : w'.HasListeners v listeners := by
  obtain ⟨rows, hmap, hall⟩ := h
  exact ⟨rows, hmap.keep hkeep, hall.imp fun _ _ hrow => ⟨hrow.1, hrow.2.keep hkeep⟩⟩

theorem HasFields.keep {n : Node Value} {h : Head} (hn : w.HasFields n h)
    (hkeep : w.Keeps w') : w'.HasFields n h where
  name := hn.name
  isVoid := hn.isVoid
  id := hn.id
  classes := hn.classes.keep hkeep
  style := hn.style.keep hkeep
  listeners := hn.listeners.keep hkeep
  attrs := hn.attrs.keep hkeep
  content := hn.content

theorem Shows.keep {t : Tree} (h : w.Shows v t) (hkeep : w.Keeps w') : w'.Shows v t := by
  induction t generalizing v with
  | text s =>
    cases h
    exact .text s
  | node head children ih =>
    cases h with
    | node object fields holder below =>
      exact .node (hkeep.node _ _ object) (fields.keep hkeep) (holder.keep hkeep)
        (forall₂_imp_of_mem below fun c hc _ h => ih c hc h)

/-! ## Reading what is shown -/

theorem unfold_ref {id : Nat} {o : Object Value} (h : w.objects[id]? = some o) (depth : Nat) :
    w.unfold true (depth + 1) (.ref id) =
      .object id (o.mapParts (w.unfold true depth) w.glance w.glance) := by
  rw [unfold, unfoldWith, h]
  rfl

theorem unfold_textOrNone (w : World) (s : Option String) (depth : Nat) :
    w.unfold true depth (Operation.textOrNone s) = .ofText? s := by
  cases s <;> exact unfold_atom w true depth _

theorem read_ref {id : Nat} {o : Object Value} (h : w.objects[id]? = some o) :
    w.read (.ref id) =
      .object id (o.mapParts (w.unfold true w.objects.size) w.glance w.glance) :=
  unfold_ref h w.objects.size

/-- The items of a list, each unfolded one step less. -/
theorem HasList.unfold_items {vs : List Value} (h : w.HasList v vs) (depth : Nat) :
    ∃ id, w.unfold true (depth + 1) v = .list id (vs.map (w.unfold true depth)) := by
  obtain ⟨id, rfl, hid⟩ := h
  exact ⟨id, unfold_ref hid depth⟩

/-- The entries of a map, each unfolded one step less. -/
theorem HasMap.unfold_entries {es : List (Value × Value)} (h : w.HasMap v es) (depth : Nat) :
    ∃ id, w.unfold true (depth + 1) v =
      .map id (es.map (Prod.map (w.unfold true depth) (w.unfold true depth))) := by
  obtain ⟨id, rfl, hid⟩ := h
  exact ⟨id, unfold_ref hid depth⟩

theorem HasMap.read_entries {es : List (Value × Value)} (h : w.HasMap v es) :
    ∃ id, w.read v = .map id (es.map (Prod.map (w.unfold true w.objects.size)
      (w.unfold true w.objects.size))) := h.unfold_entries w.objects.size

theorem HasList.lists {vs : List Value} (h : w.HasList v vs) (depth : Nat) :
    (w.unfold true (depth + 1) v).Lists vs := by
  obtain ⟨id, hitems⟩ := h.unfold_items depth
  exact ⟨id, _, hitems, by simp [Function.comp_def]⟩

theorem HasStyle.shows {style : Option Style} (h : w.HasStyle v style) (depth : Nat) :
    (w.unfold true (depth + 1) v).ShowsStyle style := by
  cases style with
  | none =>
    rw [show v = .none from h]
    exact unfold_atom w true _ .none
  | some s =>
    obtain ⟨id, hentries⟩ := HasMap.unfold_entries h depth
    exact ⟨id, by rw [hentries]; simp [Style.terms, Function.comp_def]⟩

theorem HasListeners.shows {listeners : Entries String (List Value)}
    (h : w.HasListeners v listeners) (depth : Nat) :
    (w.unfold true (depth + 2) v).ShowsListeners listeners := by
  obtain ⟨rows, hmap, hall⟩ := h
  obtain ⟨id, hentries⟩ := hmap.unfold_entries (depth + 1)
  refine ⟨id, _, hentries, List.forall₂_map_left_iff.mpr (hall.imp fun row l hrow => ?_)⟩
  exact ⟨by rw [Prod.map, hrow.1]; simp, hrow.2.lists depth⟩

theorem HasMap.unfold_attrs {attrs : Entries String AttributeValue}
    (h : w.HasMap v (attrs.map fun e => (.text e.1, .atom e.2.toAtom))) (depth : Nat) :
    ∃ id, w.unfold true (depth + 1) v =
      .map id (attrs.map fun e => (.text e.1, .atom e.2.toAtom)) := by
  obtain ⟨id, hentries⟩ := h.unfold_entries depth
  exact ⟨id, by rw [hentries]; simp [Function.comp_def]⟩

/-- What the fields of a node are, they show when each is unfolded far enough. -/
theorem HasFields.shows_unfold {n : Node Value} {h : Head} (hn : w.HasFields n h) (depth : Nat) :
    (n.map (w.unfold true (depth + 2))).Shows h where
  name := by rw [Node.map, hn.name, unfold_atom]
  isVoid := by rw [Node.map, hn.isVoid, unfold_atom]
  id := by rw [Node.map, hn.id, unfold_textOrNone]
  classes := by
    obtain ⟨id, hitems⟩ := hn.classes.unfold_items (depth + 1)
    exact ⟨id, by rw [Node.map, hitems]; simp [Function.comp_def]⟩
  style := hn.style.shows (depth + 1)
  listeners := hn.listeners.shows depth
  attrs := hn.attrs.unfold_attrs (depth + 1)
  content := by rw [Node.map, hn.content, unfold_textOrNone]

/-- What the fields of a node are, they show when each is read. -/
theorem HasFields.shows {n : Node Value} {h : Head} (hn : w.HasFields n h) :
    (n.map w.read).Shows h := by
  obtain ⟨id, -, hid⟩ := hn.classes
  obtain ⟨size, hsize⟩ := Nat.exists_eq_add_of_lt (lt_size hid)
  have hread : w.read = w.unfold true (id + size + 2) := by
    funext v
    rw [read, depthBound, hsize]
  rw [hread]
  exact hn.shows_unfold (id + size)

end World

end Markup
