import Markup.Proofs.Construction.Described
import Markup.Proofs.Node.Skeleton

/-!
# What the parts of nodes are for

A node that a constructor made keeps to texts, lists and maps (`World.WellMade`), and its copies
share them.  A `Plan` says which objects are parts of such nodes and what each of them is for, so
that the same object has one `Role` wherever it is found.  The objects fit a plan if each is what
its role asks for, the parts of it having their own roles (`Plan.Fits`).

Then all nodes in the plan are well made (`Plan.Fits.wellMade`).  To see that the objects still fit
after a change it is enough to look at those that were changed or made
(`Plan.Fits.of_changed`), as long as every object stays of its kind (`World.KeepsKinds`).
-/

namespace Markup

open Operation

/-! ## Well-made nodes -/

/-- A plain attribute: its key has no field of its own, and its value is one that is kept. -/
def IsPlain (e : Value × Value) : Prop :=
  (∀ name ∈ AttributeSet.ownKeys, e.1 ≠ .text name) ∧ ∃ v : AttributeValue, e.2 = .atom v.toAtom

/-- A node as constructors make it, with the name and the void flag that a registry gave. -/
structure World.WellMade (w : World) (tag : Tag) (n : Node Value) : Prop where
  name : n.name = .text tag.name ∧ tag.name ≠ ""
  isVoid : tag.flag ≠ .none → n.isVoid = tag.flag
  id : ∃ id, n.id = textOrNone id
  style : ∃ style, w.HasStyle n.style style
  attrs : ∃ es, w.HasMap n.attrs es ∧ ∀ e ∈ es, IsPlain e
  listeners : ∃ es, w.HasMap n.listeners es ∧
    ∀ e ∈ es, ∃ fns, w.HasList e.2 fns ∧ fns ≠ [] ∧ ∀ f ∈ fns, w.callable f = true
  content : ∃ s, n.content = .text s
  children : ∃ vs, w.HasList n.children vs ∧ ∀ v ∈ vs, w.IsPrimitive v → ∃ s, v = .text s

/-! ## Kinds of objects -/

namespace World

/--
Whatever was done, objects stay of their kinds: what can be called still can be, and nothing became
a number or a node.
-/
structure KeepsKinds (w w' : World) : Prop where
  size_le : w.objects.size ≤ w'.objects.size
  callable : ∀ v, w.callable v = true → w'.callable v = true
  number : ∀ k, k < w.objects.size → w'.objects[k]? = some .notANumber →
    w.objects[k]? = some .notANumber
  node : ∀ k m, k < w.objects.size → w'.objects[k]? = some (.node m) →
    ∃ n, w.objects[k]? = some (.node n)

/-- An object after a change: it is the same, or a list, a map or a node like before. -/
inductive Remains : Object Value → Object Value → Prop
  | same (o : Object Value) : Remains o o
  | list (items items' : List Value) : Remains (.list items) (.list items')
  | map (es es' : List (Value × Value)) : Remains (.map es) (.map es')
  | node (n n' : Node Value) : Remains (.node n) (.node n')

variable {w w₁ w' : World} {v : Value}

theorem keepsKinds_of_remains (hsize : w.objects.size ≤ w'.objects.size)
    (h : ∀ (k : Nat) (o : Object Value), w.objects[k]? = some o →
      ∃ o', w'.objects[k]? = some o' ∧ Remains o o') : w.KeepsKinds w' where
  size_le := hsize
  callable v hv := by
    cases v with
    | atom a => cases a <;> exact hv
    | ref k =>
      rw [World.callable] at hv ⊢
      cases ho : w.objects[k]? with
      | none =>
        rw [ho] at hv
        cases hv
      | some o =>
        obtain ⟨o', ho', hremains⟩ := h k o ho
        rw [ho] at hv
        rw [ho']
        cases hremains <;> exact hv
  number k hk hnumber := by
    obtain ⟨o, ho⟩ := exists_of_lt_size hk
    obtain ⟨o', ho', hremains⟩ := h k o ho
    rw [hnumber, Option.some.injEq] at ho'
    subst ho'
    cases hremains
    exact ho
  node k m hk hm := by
    obtain ⟨o, ho⟩ := exists_of_lt_size hk
    obtain ⟨o', ho', hremains⟩ := h k o ho
    rw [hm, Option.some.injEq] at ho'
    subst ho'
    cases hremains with
    | same => exact ⟨m, ho⟩
    | node n => exact ⟨n, ho⟩

theorem KeepsKinds.trans (h : w.KeepsKinds w₁) (h' : w₁.KeepsKinds w') : w.KeepsKinds w' where
  size_le := Nat.le_trans h.size_le h'.size_le
  callable v hv := h'.callable v (h.callable v hv)
  number k hk hnumber := h.number k hk (h'.number k (Nat.lt_of_lt_of_le hk h.size_le) hnumber)
  node k m hk hm := by
    obtain ⟨n, hn⟩ := h'.node k m (Nat.lt_of_lt_of_le hk h.size_le) hm
    exact h.node k n hk hn

/-- Objects that are made leave all others of their kinds. -/
theorem Retains.keepsKinds (h : w.Retains 0 w') : w.KeepsKinds w' :=
  keepsKinds_of_remains h.size_le fun k o ho => ⟨o, h.kept (Nat.zero_le k) ho, .same o⟩

/-- An object that is replaced by one of its kind leaves all of their kinds. -/
theorem keepsKinds_replace {k : Nat} {o o' : Object Value} (ho : w.objects[k]? = some o)
    (hremains : Remains o o') : w.KeepsKinds (w.replace k o') := by
  refine keepsKinds_of_remains (Nat.le_of_eq size_replace.symm) fun i p hp => ?_
  by_cases hi : i = k
  · subst hi
    obtain rfl := Option.some.inj (ho.symm.trans hp)
    exact ⟨o', get_replace_self (lt_size ho), hremains⟩
  · exact ⟨p, by rw [get_replace_ne hi, hp], .same p⟩

/-- What is no number becomes none. -/
theorem KeepsKinds.not_isPrimitive (h : w.KeepsKinds w') (hv : w.Has v)
    (hnot : ¬ w.IsPrimitive v) : ¬ w'.IsPrimitive v := by
  cases v with
  | atom a => exact hnot
  | ref k => exact fun hnumber => hnot (h.number k (hv k rfl).2 hnumber)

end World

/-! ## Plans -/

/-- What an object is for. -/
inductive Role where
  | node (tag : Tag)
  | style
  | attrs
  | listeners
  | callees
  | children

/-- Which objects are parts of nodes, and what each is for. -/
abbrev Plan : Type := Nat → Option Role

namespace Plan

/-- One more object has a role. -/
def set (p : Plan) (k : Nat) (r : Role) : Plan := fun i => if i = k then some r else p i

/-- A plan that says all that another one says. -/
def Grows (p p' : Plan) : Prop := ∀ k r, p k = some r → p' k = some r

/-- The value is an object with this role. -/
def Gives (p : Plan) (v : Value) (r : Role) : Prop := ∃ k, v = .ref k ∧ p k = some r

variable {p p' p'' : Plan} {k : Nat} {r : Role} {v : Value}

theorem Grows.trans (h : p.Grows p') (h' : p'.Grows p'') : p.Grows p'' :=
  fun k r hr => h' k r (h k r hr)

theorem Gives.mono (h : p.Gives v r) (hgrows : p.Grows p') : p'.Gives v r := by
  obtain ⟨k, hv, hr⟩ := h
  exact ⟨k, hv, hgrows k r hr⟩

theorem set_self (p : Plan) (k : Nat) (r : Role) : p.set k r k = some r := if_pos rfl

/-- An object without a role gets one, and all others keep theirs. -/
theorem set_eq_some_iff {i : Nat} {r' : Role} (h : p k = none) :
    p.set k r i = some r' ↔ (i = k ∧ r' = r) ∨ p i = some r' := by
  rw [set]
  split
  · next hi => simp [hi, h, eq_comm]
  · next hi => simp [hi]

theorem grows_set (h : p k = none) (r : Role) : p.Grows (p.set k r) :=
  fun _ _ hi => (set_eq_some_iff h).mpr (.inr hi)

/-- A copy of a node gets a role, and the list for its children before it. -/
def copied (p : Plan) (k : Nat) (tag : Tag) : Plan := (p.set k .children).set (k + 1) (.node tag)

theorem copied_eq_some_iff {i : Nat} {tag : Tag} (h : ∀ i, k ≤ i → p i = none) :
    p.copied k tag i = some r ↔
      (i = k + 1 ∧ r = .node tag) ∨ (i = k ∧ r = .children) ∨ p i = some r := by
  have hnode : p.set k .children (k + 1) = none := by simp [set, h (k + 1)]
  rw [copied, set_eq_some_iff hnode, set_eq_some_iff (h k (Nat.le_refl k))]

theorem grows_copied {tag : Tag} (h : ∀ i, k ≤ i → p i = none) : p.Grows (p.copied k tag) :=
  fun _ _ hi => (copied_eq_some_iff h).mpr (.inr (.inr hi))

/-- A node over parts with the right roles. -/
structure Outlines (p : Plan) (tag : Tag) (n : Node Value) : Prop where
  freezable : n.Freezable
  name : n.name = .text tag.name
  isVoid : tag.flag ≠ .none → n.isVoid = tag.flag
  id : ∃ id, n.id = textOrNone id
  style : n.style = .none ∨ p.Gives n.style .style
  listeners : p.Gives n.listeners .listeners
  attrs : p.Gives n.attrs .attrs
  content : ∃ s, n.content = .text s
  children : p.Gives n.children .children

theorem Outlines.mono {tag : Tag} {n : Node Value} (h : p.Outlines tag n)
    (hgrows : p.Grows p') : p'.Outlines tag n :=
  { h with
    style := h.style.imp_right (·.mono hgrows)
    listeners := h.listeners.mono hgrows
    attrs := h.attrs.mono hgrows
    children := h.children.mono hgrows }

/-- A node over other children. -/
theorem Outlines.withChildren {tag : Tag} {n : Node Value} (h : p.Outlines tag n)
    (hv : p.Gives v .children) : p.Outlines tag { n with children := v } :=
  { h with
    freezable := h.freezable.withChildren v
    children := hv }

/-- An object is what its role asks for. -/
inductive Suits (p : Plan) (w : World) : Role → Object Value → Prop
  | node {tag : Tag} {n : Node Value} (h : p.Outlines tag n) : Suits p w (.node tag) (.node n)
  | style (style : Style) :
      Suits p w .style (.map (style.map fun e => (.text e.1, .text e.2)))
  | attrs {es : List (Value × Value)} (h : ∀ e ∈ es, IsPlain e) : Suits p w .attrs (.map es)
  | listeners {es : List (Value × Value)} (h : ∀ e ∈ es, p.Gives e.2 .callees) :
      Suits p w .listeners (.map es)
  | callees {fns : List Value} (hne : fns ≠ []) (h : ∀ f ∈ fns, w.callable f = true) :
      Suits p w .callees (.list fns)
  | children {vs : List Value}
      (h : ∀ v ∈ vs, w.Has v ∧ (w.IsPrimitive v → ∃ s, v = .text s)) :
      Suits p w .children (.list vs)

/-- Every object with a role is what the role asks for. -/
def Fits (p : Plan) (w : World) : Prop :=
  ∀ k r, p k = some r → ∃ o, w.objects[k]? = some o ∧ p.Suits w r o

variable {w w' : World} {o : Object Value}

theorem Suits.mono (h : p.Suits w r o) (hgrows : p.Grows p') (hkinds : w.KeepsKinds w') :
    p'.Suits w' r o := by
  cases h with
  | node h => exact .node (h.mono hgrows)
  | style style => exact .style style
  | attrs h => exact .attrs h
  | listeners h => exact .listeners fun e he => (h e he).mono hgrows
  | callees hne h => exact .callees hne fun f hf => hkinds.callable f (h f hf)
  | children h =>
    refine .children fun v hv => ⟨(h v hv).1.mono hkinds.size_le, fun hprimitive => ?_⟩
    by_contra hnot
    exact hkinds.not_isPrimitive (h v hv).1 (fun hp => hnot ((h v hv).2 hp)) hprimitive

/-- Only what has no role yet is still to be made. -/
theorem Fits.eq_none (h : p.Fits w) (hk : w.objects.size ≤ k) : p k = none := by
  cases hr : p k with
  | none => rfl
  | some r =>
    obtain ⟨o, ho, -⟩ := h k r hr
    have hlt := World.lt_size ho
    omega

/-- The objects fit if those do that were changed or made. -/
theorem Fits.of_changed (h : p.Fits w) (hgrows : p.Grows p') (hkinds : w.KeepsKinds w')
    (hchanged : ∀ k r, p' k = some r → p k = some r ∧ w'.objects[k]? = w.objects[k]? ∨
      ∃ o, w'.objects[k]? = some o ∧ p'.Suits w' r o) : p'.Fits w' := by
  intro k r hr
  rcases hchanged k r hr with ⟨hold, hsame⟩ | hnew
  · obtain ⟨o, ho, hsuits⟩ := h k r hold
    exact ⟨o, by rw [hsame, ho], hsuits.mono hgrows hkinds⟩
  · exact hnew

variable {tag : Tag} {i : Nat}

/-! ### What the objects with a role are -/

theorem Fits.exists_node (h : p.Fits w) (hi : p i = some (.node tag)) :
    ∃ n, w.objects[i]? = some (.node n) ∧ p.Outlines tag n := by
  obtain ⟨o, ho, hsuits⟩ := h i _ hi
  cases hsuits with
  | node houtlines => exact ⟨_, ho, houtlines⟩

theorem Fits.outlines (h : p.Fits w) (hi : p i = some (.node tag)) {n : Node Value}
    (hn : w.objects[i]? = some (.node n)) : p.Outlines tag n := by
  obtain ⟨m, hm, houtlines⟩ := h.exists_node hi
  rw [hn, Option.some.injEq, Object.node.injEq] at hm
  rwa [hm]

theorem Fits.exists_style (h : p.Fits w) (hv : p.Gives v .style) :
    ∃ style : Style, w.HasStyle v (some style) := by
  obtain ⟨k, hk, hr⟩ := hv
  obtain ⟨o, ho, hsuits⟩ := h k _ hr
  cases hsuits with
  | style style => exact ⟨style, k, hk, ho⟩

theorem Fits.exists_attrs (h : p.Fits w) (hv : p.Gives v .attrs) :
    ∃ es, w.HasMap v es ∧ ∀ e ∈ es, IsPlain e := by
  obtain ⟨k, hk, hr⟩ := hv
  obtain ⟨o, ho, hsuits⟩ := h k _ hr
  cases hsuits with
  | attrs hes => exact ⟨_, ⟨k, hk, ho⟩, hes⟩

theorem Fits.exists_listeners (h : p.Fits w) (hv : p.Gives v .listeners) :
    ∃ es, w.HasMap v es ∧ ∀ e ∈ es, p.Gives e.2 .callees := by
  obtain ⟨k, hk, hr⟩ := hv
  obtain ⟨o, ho, hsuits⟩ := h k _ hr
  cases hsuits with
  | listeners hes => exact ⟨_, ⟨k, hk, ho⟩, hes⟩

theorem Fits.exists_callees (h : p.Fits w) (hv : p.Gives v .callees) :
    ∃ fns, w.HasList v fns ∧ fns ≠ [] ∧ ∀ f ∈ fns, w.callable f = true := by
  obtain ⟨k, hk, hr⟩ := hv
  obtain ⟨o, ho, hsuits⟩ := h k _ hr
  cases hsuits with
  | callees hne hfns => exact ⟨_, ⟨k, hk, ho⟩, hne, hfns⟩

theorem Fits.exists_children (h : p.Fits w) (hv : p.Gives v .children) :
    ∃ vs, w.HasList v vs ∧ ∀ v ∈ vs, w.Has v ∧ (w.IsPrimitive v → ∃ s, v = .text s) := by
  obtain ⟨k, hk, hr⟩ := hv
  obtain ⟨o, ho, hsuits⟩ := h k _ hr
  cases hsuits with
  | children hvs => exact ⟨_, ⟨k, hk, ho⟩, hvs⟩

/-- A node in a plan is well made. -/
theorem Fits.wellMade (h : p.Fits w) (hi : p i = some (.node tag)) :
    ∃ n, w.objects[i]? = some (.node n) ∧ w.WellMade tag n := by
  obtain ⟨n, hn, houtlines⟩ := h.exists_node hi
  obtain ⟨es, hes, hcallees⟩ := h.exists_listeners houtlines.listeners
  obtain ⟨vs, hvs, hchildren⟩ := h.exists_children houtlines.children
  obtain ⟨name, hname, hne⟩ := houtlines.freezable.name
  refine ⟨n, hn, ⟨houtlines.name, ?_⟩, houtlines.isVoid, houtlines.id, ?_,
    h.exists_attrs houtlines.attrs, ⟨es, hes, fun e he => h.exists_callees (hcallees e he)⟩,
    houtlines.content, vs, hvs, fun v hv => (hchildren v hv).2⟩
  · rw [houtlines.name, Value.text, Value.text, Value.atom.injEq, Atom.text.injEq] at hname
    rwa [hname]
  · rcases houtlines.style with hnone | hstyle
    · exact ⟨none, hnone⟩
    · obtain ⟨style, hhas⟩ := h.exists_style hstyle
      exact ⟨some style, hhas⟩

end Plan

/-! ## A new node in a plan -/

namespace AttributeSet

open World

variable {s : AttributeSet} {w : World} {p : Plan} {tag : Tag} {flag : Value} {content : String}
  {children : List Term}

/-- The plan with the roles of the objects of a new node, the first of which has this number. -/
def planned (s : AttributeSet) (n : Nat) (tag : Tag) (p : Plan) : Plan := fun k =>
  if k = s.listenersAt n + 3 then some (.node tag)
  else if k = s.listenersAt n + 2 then some .children
  else if k = s.listenersAt n + 1 then some .attrs
  else if k = s.listenersAt n then some .listeners
  else if s.rowsAt n ≤ k ∧ k < s.listenersAt n then some .callees
  else if s.style.isSome ∧ k = n + 1 then some .style
  else p k

theorem lt_rowsAt (s : AttributeSet) (n : Nat) : n < s.rowsAt n := by
  rw [rowsAt]
  omega

theorem rowsAt_le (s : AttributeSet) (n : Nat) : s.rowsAt n ≤ s.listenersAt n := by
  rw [listenersAt]
  omega

theorem planned_of_lt {n k : Nat} (h : k < n) : s.planned n tag p k = p k := by
  have hrows := s.lt_rowsAt n
  have hle := s.rowsAt_le n
  rw [planned, if_neg (by omega), if_neg (by omega), if_neg (by omega), if_neg (by omega),
    if_neg (by omega), if_neg (by omega)]

/-- What had a role before has it. -/
theorem grows_planned {n : Nat} (h : ∀ k, n ≤ k → p k = none) : p.Grows (s.planned n tag p) := by
  intro k r hr
  have hlt : k < n := by
    by_contra hle
    rw [h k (Nat.le_of_not_lt hle)] at hr
    cases hr
  rw [planned_of_lt hlt, hr]

/-- The node is the only new one. -/
theorem planned_eq_node_iff {n k : Nat} {tag' : Tag} (h : ∀ k, n ≤ k → p k = none) :
    s.planned n tag p k = some (.node tag') ↔
      (k = s.listenersAt n + 3 ∧ tag' = tag) ∨ p k = some (.node tag') := by
  have hrows := s.lt_rowsAt n
  have hle := s.rowsAt_le n
  by_cases hlt : k < n
  · rw [planned_of_lt hlt]
    refine ⟨.inr, fun hnode => hnode.resolve_left fun hk => ?_⟩
    omega
  · rw [h k (Nat.le_of_not_lt hlt), planned]
    split
    · next hk => simp [hk, eq_comm]
    · next hk =>
      rw [h k (Nat.le_of_not_lt hlt)]
      split_ifs <;> simp [hk]

/-- Attributes that keep apart what a node stores apart are plain. -/
theorem Separates.isPlain (h : s.Separates) :
    ∀ e ∈ s.attrs.map fun e => (e.1.toValue, Value.atom e.2.toAtom), IsPlain e := by
  intro e he
  obtain ⟨d, hd, rfl⟩ := List.mem_map.mp he
  refine ⟨fun name hname heq => ?_, d.2, rfl⟩
  have hother := h d.1 (List.mem_map_of_mem hd) name hname
  rw [Term.eq_atom_of_toValue heq] at hother
  simp at hother

/-- The new node is planned over the new objects. -/
theorem outlines_node (hname : tag.name ≠ "") (hvoid : flag ≠ .none)
    (hflag : tag.flag ≠ .none → flag = tag.flag) (n : Nat) :
    (s.planned n tag p).Outlines tag (s.node n (.text tag.name) flag content) where
  freezable := ⟨⟨hvoid, nofun, nofun, nofun⟩, _, rfl, hname⟩
  name := rfl
  isVoid := hflag
  id := ⟨s.id, rfl⟩
  style := by
    have hrows : s.rowsAt n = n + 1 + (Style.objects s.style).length := rfl
    have hle := s.rowsAt_le n
    cases hstyle : s.style with
    | none => exact .inl (by rw [node, styleValue, hstyle])
    | some style =>
      rw [hstyle, Style.objects, List.length_singleton] at hrows
      refine .inr ⟨n + 1, by rw [node, styleValue, hstyle], ?_⟩
      rw [planned, if_neg (by omega), if_neg (by omega), if_neg (by omega), if_neg (by omega),
        if_neg (by omega), if_pos ⟨by rw [hstyle]; rfl, rfl⟩]
  listeners := ⟨_, rfl, by simp [planned]⟩
  attrs := ⟨_, rfl, by simp [planned]⟩
  content := ⟨content, rfl⟩
  children := ⟨_, rfl, by simp [planned]⟩

/-- The objects of a new node fit where the listeners can be called and no child is a number. -/
theorem fits_planned (h : p.Fits w) (hname : tag.name ≠ "") (hvoid : flag ≠ .none)
    (hflag : tag.flag ≠ .none → flag = tag.flag) (hs : s.Separates)
    (hfilled : s.listeners.Filled fun f => w.callable f.toValue = true)
    (hchildren : ∀ v ∈ values children,
      (∃ text, v = .text text) ∨ w.Has v ∧ ¬ w.IsPrimitive v) :
    (s.planned w.objects.size tag p).Fits
      (w.addAll (s.made w.objects.size (.text tag.name) flag content children)) := by
  have hkinds : w.KeepsKinds
      (w.addAll (s.made w.objects.size (.text tag.name) flag content children)) :=
    Retains.keepsKinds extends_made.changesOnly
  refine h.of_changed (grows_planned fun _ => h.eq_none) hkinds fun k r hr => ?_
  rw [planned] at hr
  split at hr
  · next hk =>
    cases hr
    rw [hk]
    exact .inr ⟨_, get_node, .node (outlines_node hname hvoid hflag _)⟩
  split at hr
  · next hk =>
    cases hr
    rw [hk]
    refine .inr ⟨_, get_children, .children fun v hv => ?_⟩
    rcases hchildren v hv with ⟨text, rfl⟩ | ⟨hhas, hnot⟩
    · exact ⟨Value.between_atom _ _ _, fun _ => ⟨text, rfl⟩⟩
    · exact ⟨hhas.mono hkinds.size_le,
        fun hnumber => absurd hnumber (hkinds.not_isPrimitive hhas hnot)⟩
  split at hr
  · next hk =>
    cases hr
    rw [hk]
    exact .inr ⟨_, get_attrs, .attrs hs.isPlain⟩
  split at hr
  · next hk =>
    cases hr
    rw [hk]
    refine .inr ⟨_, get_listeners, .listeners fun e he => ?_⟩
    obtain ⟨row, hrow, rfl⟩ := List.mem_map.mp he
    have hmem : Value.ref row.2 ∈ ((s.rows w.objects.size).stored Value.text Value.ref).map (·.2) :=
      List.mem_map_of_mem he
    obtain ⟨hle, hlt⟩ := mem_rows.mp hmem
    refine ⟨row.2, rfl, ?_⟩
    rw [planned, if_neg (by omega), if_neg (by omega), if_neg (by omega), if_neg (by omega),
      if_pos ⟨hle, hlt⟩]
  split at hr
  · next hk =>
    cases hr
    obtain ⟨j, rfl⟩ := Nat.exists_eq_add_of_le hk.1
    have hj : j < s.listeners.length := by
      have hlt := hk.2
      rw [listenersAt] at hlt
      omega
    obtain ⟨hne, hall⟩ := hfilled _ (List.getElem_mem hj)
    refine .inr ⟨_, get_row (List.getElem?_eq_getElem hj), .callees ?_ fun f hf => ?_⟩
    · simpa [values] using hne
    · obtain ⟨t, ht, rfl⟩ := List.mem_map.mp hf
      exact hkinds.callable _ (hall t ht)
  split at hr
  · next hk =>
    cases hr
    obtain ⟨style, hstyle⟩ := Option.isSome_iff_exists.mp hk.1
    rw [hk.2]
    exact .inr ⟨_, get_style hstyle, .style style⟩
  · obtain ⟨o, ho, -⟩ := h k r hr
    exact .inl ⟨hr, get_addAll_old (lt_size ho)⟩

end AttributeSet

end Markup
