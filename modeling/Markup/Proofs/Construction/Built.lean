import Markup.Proofs.Attributes.Typed
import Markup.Proofs.Construction.Callees
import Markup.Proofs.Document.Coerced
import Markup.Proofs.Node.Walk

/-!
# What constructors make can be shown

A node that a call made of a mapping with texts for keys, and of children that are texts, numbers or
such nodes (`World.Built`), is well-typed whatever the values of the mapping and of the keywords
were: they were made texts, a style and lists of listeners.  Only the items of a list or a tuple of
classes are kept as they are.  So a node that was built, and not changed since, is written and
materialised if all classes in it are texts, and neither is possible if one is not
(`output_completes_iff`).
-/

namespace Markup

open Operation

/-! ## The fields of a new node -/

namespace AttributeSet

open World

variable {s : AttributeSet} {w w' : World} {name flag : Value} {content : String}
  {children : List Term}

/-- A new node has the listeners that were described, as long as they are kept. -/
theorem hasListeners_of_made
    (hkept : (w.addAll (s.made w.objects.size name flag content children)).Retains
      w.objects.size w') :
    w'.HasListeners (.ref (s.listenersAt w.objects.size))
      (s.listeners.map fun e => (e.1, values e.2)) := by
  have hle := le_listenersAt (s := s) (n := w.objects.size)
  refine ⟨_, ⟨_, rfl, hkept.kept (Nat.le_of_lt hle) get_listeners⟩, ?_⟩
  have hrows : w'.HoldsRows (s.rows w.objects.size) _ := holdsRows_numberedFrom fun j e he =>
    hkept.kept (by rw [rowsAt]; omega) (get_row he)
  exact List.forall₂_map_left_iff.mpr (hrows.imp fun r l hrow => ⟨by rw [hrow.1], _, rfl, hrow.2⟩)

theorem hasStyle_of_made
    (hkept : (w.addAll (s.made w.objects.size name flag content children)).Retains
      w.objects.size w') :
    w'.HasStyle (s.styleValue w.objects.size) s.style := by
  cases hstyle : s.style with
  | none => rw [styleValue, hstyle, HasStyle]
  | some style =>
    rw [styleValue, hstyle]
    exact ⟨_, rfl, hkept.kept (Nat.le_succ _) (get_style hstyle)⟩

/-- A new node is well-typed but for its classes, if its attributes are typed. -/
theorem exists_shows_of_made {tag : String} {isVoid : Bool} (hs : s.Typed)
    (hkept : (w.addAll (s.made w.objects.size (.text tag) (.bool isVoid) content
      children)).Retains w.objects.size w') (depth list : Nat) :
    ∃ h : Head, { (s.node w.objects.size (.text tag) (.bool isVoid) content).map
      (w'.unfold true (depth + 2)) with classes := .list list [] }.Shows h := by
  obtain ⟨attrs, hnodup, hattrs⟩ := hs.attrs
  have hlisteners := hasListeners_of_made hkept
  have hle := le_listenersAt (s := s) (n := w.objects.size)
  have hmap : w'.HasMap (.ref (s.listenersAt w.objects.size + 1))
      (attrs.map fun e => (.text e.1, .atom e.2.toAtom)) := by
    refine ⟨_, rfl, ?_⟩
    rw [hkept.kept (by omega) get_attrs, hattrs]
    simp [Entries.stored, Function.comp_def]
  exact ⟨{
    name := tag
    isVoid := isVoid
    id := s.id
    classes := []
    style := s.style
    listeners := s.listeners.map fun e => (e.1, values e.2)
    attrs := attrs
    content := some content
    style_nodup := hs.style
    listeners_nodup := by simpa [Entries.keys, Function.comp_def] using hs.listeners
    attrs_nodup := hnodup },
    unfold_atom .., unfold_atom .., unfold_textOrNone .., ⟨list, rfl⟩,
    (hasStyle_of_made hkept).shows (depth + 1), hlisteners.shows depth,
    hmap.unfold_attrs (depth + 1), unfold_atom ..⟩

end AttributeSet

/-! ## Nodes that were built -/

namespace World

/--
A node that a call of a constructor made, with a text for its name and a truth value for its void
flag.  The keys of the mapping that the call gave were texts, its children were texts, numbers and
nodes that were built too, and all that was made is still as it was.
-/
inductive Built (w : World) : Nat → Prop
  | call {x : Operation Value} {a : Arguments} {w₁ w₂ : World} {i : Nat} {n : Node Value}
      {tag : String} {isVoid : Bool} (call : ConstructorCall x a)
      (run : x.runIn w₁ = (.ok (.ref i), w₂)) (made : w₂.objects[i]? = some (.node n))
      (name : n.name = .text tag) (flag : n.isVoid = .bool isVoid)
      (given : w₁.Has a.one ∧ w₁.Has a.two ∧ w₁.Has a.three)
      (keys : ∀ es, w₁.mappingGiven a = some es → ∀ e ∈ es, ∃ k, e.1 = .text k)
      (children : ∀ u ∈ w₁.childrenGiven a, w₁.IsPrimitive u ∨
        ∃ k m, u = .ref k ∧ w₁.objects[k]? = some (.node m))
      (below : ∀ k m, .ref k ∈ w₁.childrenGiven a → w₁.objects[k]? = some (.node m) → Built w k)
      (kept : w₂.Retains w₁.objects.size w) : Built w i

/-- All classes of the nodes in a tree are texts. -/
def HasTextClasses (w : World) (v : Value) : Prop :=
  ∀ path i n, NodeAt w.TreeParts path v i → w.objects[i]? = some (.node n) →
    ∃ names : List String, w.HasList n.classes (names.map .text)

variable {w w' : World} {v : Value} {i depth : Nat}

/-- The keys of a mapping are texts as terms if they are as values. -/
theorem exists_text_of_entries {a : Arguments} {roles : Roles}
    (hroles : Roles.resolve (w.read a.one) (w.read a.two) (w.read a.three) = .ok roles)
    (hkeys : ∀ es, w.mappingGiven a = some es → ∀ e ∈ es, ∃ k, e.1 = .text k) :
    ∀ es, roles.attributes = .entries es → ∀ e ∈ es, ∃ k, e.1 = .text k := by
  intro es hes e he
  cases hm : w.mappingGiven a with
  | some given =>
    rw [attributes_of_mappingGiven hroles hm] at hes
    cases hes
    obtain ⟨d, hd, rfl⟩ := List.mem_map.mp he
    obtain ⟨k, hk⟩ := hkeys given hm d hd
    exact ⟨k, by rw [Prod.map, hk, unfold_atom]⟩
  | none =>
    obtain ⟨s, hs⟩ := exists_selector_of_mappingGiven hroles hm
    rw [hs] at hes
    cases hes

theorem Built.coerced (h : w.Built i) (hdepth : i < depth) :
    (w.unfold true depth (.ref i)).Coerced := by
  induction h generalizing depth with
  | @call x a w₁ w₂ i n tag isVoid hcall hrun hn hname hflag hgiven hkeys hchildren hbelow hkept
      ih =>
    obtain ⟨w₀, name, flag, hext, hconstruct⟩ := hcall.exists_construct hrun hn
    obtain ⟨s, content, children, flag, hdescribe, hi, rfl⟩ := exists_made_of_construct hconstruct
    obtain rfl := Value.ref.inj hi
    rw [AttributeSet.get_node, Option.some.injEq, Object.node.injEq] at hn
    subst hn
    obtain rfl : name = .text tag := hname
    obtain rfl : flag = .bool isVoid := hflag
    have hkept : Retains w₀.objects.size _ w :=
      hkept.mono fun k hk => Nat.lt_of_lt_of_le hk hext.size_le
    obtain ⟨roles, -, hroles, -⟩ := of_describe hdescribe
    have hnamed := exists_text_of_entries hroles (by
      rw [hext.mappingGiven_eq hgiven.1 hgiven.2.1]
      exact hkeys)
    have htyped : s.Typed := AttributeSet.typed_of_describe hroles hnamed hdescribe
    have hle := AttributeSet.le_listenersAt (s := s) (n := w₀.objects.size)
    obtain ⟨depth, rfl⟩ : ∃ d, depth = d + 3 := ⟨depth - 3, by omega⟩
    have hclasses : w.HasList (.ref w₀.objects.size) _ :=
      ⟨_, rfl, hkept.kept (Nat.le_refl _) AttributeSet.get_classes⟩
    have hholder : w.HasList (.ref (s.listenersAt w₀.objects.size + 2)) _ :=
      ⟨_, rfl, hkept.kept (by omega) AttributeSet.get_children⟩
    obtain ⟨list, hlist⟩ := hclasses.unfold_items (depth + 1)
    obtain ⟨holder, hitems⟩ := hholder.unfold_items (depth + 1)
    obtain ⟨head, hshows⟩ := AttributeSet.exists_shows_of_made htyped hkept depth list
    rw [unfold_ref (hkept.kept (by omega) AttributeSet.get_node)]
    refine .node hshows hlist hitems ?_
    -- each child is a text, or a node that was there before the call
    have hsame : w₀.childrenGiven a = w₁.childrenGiven a := by
      rw [childrenGiven, childrenGiven, hext.sequence?_eq hgiven.1,
        hext.sequence?_eq hgiven.2.1, hext.sequence?_eq hgiven.2.2]
    have hbecomes := becomesChild_of_describe hdescribe
    rw [hsame] at hbecomes
    intro t ht
    obtain ⟨u, hu, rfl⟩ := List.mem_map.mp ht
    obtain ⟨item, hitem, hnode, htext⟩ := exists_mem_of_forall₂ hbecomes hu
    rcases hchildren item hitem with hprimitive | ⟨k, m, rfl, hm⟩
    · obtain ⟨text, rfl⟩ := htext (hext.isPrimitive hprimitive)
      rw [unfold_atom]
      exact .text text
    · rw [hnode k m rfl (hext.kept hm)]
      have hk := lt_size hm
      have hsize := hext.size_le
      exact ih k m hitem hm (by omega)

/-! ## Classes that are texts -/

theorem Shows.hasTextClasses {tree : Tree} (h : w.Shows v tree) : w.HasTextClasses v := by
  intro path i n hat hn
  induction hat generalizing tree with
  | here hparts =>
    obtain ⟨rfl, -⟩ := hparts
    cases h with
    | node hobject fields _ _ =>
      obtain rfl := Object.node.inj (Option.some.inj (hobject.symm.trans hn))
      exact ⟨_, fields.classes⟩
  | @under v c i j k items path hparts hk _ ih =>
    obtain ⟨rfl, m, hm, rfl⟩ := hparts
    cases h with
    | node hobject fields holder below =>
      obtain rfl := Object.node.inj (Option.some.inj (hobject.symm.trans hm))
      rw [holder.itemsHeld_eq] at hk
      obtain ⟨tree, -, hc⟩ := exists_mem_of_forall₂ below.flip (List.mem_of_getElem? hk)
      exact ih hc hn

/-- What is below a node has texts for classes if the node has. -/
theorem HasTextClasses.below {n : Node Value} {vs : List Value} (h : w.HasTextClasses (.ref i))
    (hn : w.objects[i]? = some (.node n)) (hvs : w.HasList n.children vs) {c : Value}
    (hc : c ∈ vs) : w.HasTextClasses c := by
  obtain ⟨k, hk⟩ := List.mem_iff_getElem?.mp hc
  intro path j m hat hm
  exact h (k :: path) j m (.under ⟨rfl, n, hn, hvs.itemsHeld_eq.symm⟩ hk hat) hm

/-- What was coerced shows a tree if all classes are texts. -/
theorem HasTextClasses.exists_shows (hclasses : w.HasTextClasses v)
    (ht : (w.unfold true depth v).Coerced) : ∃ tree, (w.unfold true depth v).Shows tree := by
  generalize hread : w.unfold true depth v = t at ht ⊢
  induction ht generalizing v depth with
  | text s => exact ⟨_, .text s⟩
  | @node id n h classes items list holder fields given hholder below ih =>
    obtain ⟨k, m, rfl, rfl, hm, rfl⟩ := unfoldWith_eq_node hread
    obtain ⟨_, us, -, hu, hlist, rfl⟩ := unfoldWith_eq_list given
    obtain ⟨_, vs, -, hv, hitems, rfl⟩ := unfoldWith_eq_list hholder
    obtain ⟨names, hnames⟩ := hclasses [] id m (.here ⟨rfl, m, hm, rfl⟩) hm
    obtain ⟨_, hu', hlist'⟩ := hnames
    obtain rfl := Value.ref.inj (hu.symm.trans hu')
    obtain rfl := Object.list.inj (Option.some.inj (hlist.symm.trans hlist'))
    obtain ⟨children, hchildren⟩ := exists_forall₂_shows fun t ht => by
      obtain ⟨c, hc, rfl⟩ := List.mem_map.mp ht
      exact ih _ ht (hclasses.below hm ⟨_, hv, hitems⟩ hc) rfl
    refine ⟨_, .node (Node.shows_of_classes fields (?_ : _ = Term.list _ (names.map .text))) hholder
      hchildren⟩
    rw [given]
    simp [Function.comp_def]

theorem Built.exists_node (h : w.Built i) : ∃ n, w.objects[i]? = some (.node n) := by
  cases h with
  | @call x a w₁ w₂ i n tag isVoid hcall hrun hn hname hflag hgiven hkeys hchildren hbelow hkept =>
    obtain ⟨w₀, name, flag, hext, hconstruct⟩ := hcall.exists_construct hrun hn
    obtain ⟨hle, -⟩ := between_of_construct hconstruct i rfl
    exact ⟨n, hkept.kept (Nat.le_trans hext.size_le hle) hn⟩

/-- What was built shows a tree exactly if all classes in it are texts. -/
theorem Built.exists_shows_iff (h : w.Built i) :
    (∃ tree, (w.read (.ref i)).Shows tree) ↔ w.HasTextClasses (.ref i) := by
  obtain ⟨n, hn⟩ := h.exists_node
  have hlt := lt_size hn
  refine ⟨fun ⟨tree, htree⟩ => (Shows.of_unfold htree).hasTextClasses, fun hclasses => ?_⟩
  exact hclasses.exists_shows (h.coerced (Nat.lt_succ_of_lt hlt))

end World

/-! ## Writing and materialising -/

/--
A node that was built, of whatever values, is written and materialised in memory exactly if all
classes in it are texts.  If one is not, both fail with the same fault.
-/
theorem output_completes_iff {w : World} {i d : Nat} (hi : w.Built i)
    (hd : w.objects[d]? = some (.memoryDocument [])) :
    ((∃ text, (Operation.render (.ref i)).runIn w = (.ok text, w)) ↔
      w.HasTextClasses (.ref i)) ∧
    ((∃ e w', (Operation.materialize (.ref i) (.ref d)).runIn w = (.ok e, w')) ↔
      w.HasTextClasses (.ref i)) ∧
    (¬ w.HasTextClasses (.ref i) →
      (Operation.render (.ref i)).runIn w = (.error .unsuitable, w) ∧
      ∃ w', (Operation.materialize (.ref i) (.ref d)).runIn w = (.error .unsuitable, w')) := by
  obtain ⟨n, hn⟩ := hi.exists_node
  have hread : w.read (.ref i) = .node i _ := World.read_ref hn
  have hcoerced : (w.read (.ref i)).Coerced := hi.coerced (Nat.lt_succ_of_lt (World.lt_size hn))
  rw [← hi.exists_shows_iff]
  by_cases hshows : ∃ tree, (w.read (.ref i)).Shows tree
  · have hcompletes : (∃ text, (Operation.render (.ref i)).runIn w = (.ok text, w)) ∧
        ∃ e w', (Operation.materialize (.ref i) (.ref d)).runIn w = (.ok e, w') := by
      obtain ⟨tree, htree⟩ := hshows
      cases tree with
      | text s =>
        rw [hread] at htree
        cases htree
      | node h children =>
        obtain ⟨e, w', hmake, -⟩ := runIn_materialize_memory hd htree
        exact ⟨⟨_, Operation.render_of_shows htree⟩, e, w', hmake⟩
    exact ⟨iff_of_true hcompletes.1 hshows, iff_of_true hcompletes.2 hshows,
      fun hnot => absurd hshows hnot⟩
  · have hrender := Html.renderChild_of_not_shows hcoerced hshows
    have hstart : World.Builds w.objects.size w w := ⟨Nat.le_refl _, fun _ _ => rfl, fun _ _ h => h⟩
    obtain ⟨w', hmake⟩ := @Host.Follows.materializeChild_of_not_shows _ w _ [] []
      (memoryHost_follows hd) _ hcoerced hshows ⟨hstart, Nat.le_refl w.objects.size⟩
    rw [hread] at hrender hmake
    have hwritten : (Operation.render (.ref i)).runIn w = (.error .unsuitable, w) := by
      rw [Operation.render, runIn_bind_ok (runIn_read _ w), hread]
      exact congrArg (·, w) hrender
    have hmade : (Operation.materialize (.ref i) (.ref d)).runIn w = (.error .unsuitable, w') := by
      rw [runIn_materialize_node hd hread]
      exact hmake
    refine ⟨iff_of_false ?_ hshows, iff_of_false ?_ hshows, fun _ => ⟨hwritten, w', hmade⟩⟩
    · rintro ⟨text, htext⟩
      rw [hwritten] at htext
      cases htext
    · rintro ⟨e, w'', he⟩
      rw [hmade] at he
      cases he

/-! ### A node with a number for a class -/

/-- A constructor, a list of a number, a mapping that has it for its classes, and a document. -/
def World.withNumber : World :=
  .ofObjects #[.constructor ⟨.text "div", .bool false⟩, .list [.int 1],
    .map [(.text "class", .ref 1)], .memoryDocument []]

/-- The world after a node was made of that mapping, with the list for its children too. -/
def World.withNumberedNode : World :=
  ((callValue (.ref 0) ⟨[.ref 2, .ref 1], []⟩).runIn .withNumber).2

/-- The node that was made. -/
def numberedNode : Node Value where
  name := .text "div"
  isVoid := .bool false
  id := .none
  classes := .ref 4
  style := .none
  listeners := .ref 5
  attrs := .ref 6
  content := .text ""
  children := .ref 7

theorem World.built_withNumberedNode : World.withNumberedNode.Built 8 := by
  have hmapping : World.withNumber.mappingGiven ⟨.ref 2, .ref 1, .none, []⟩ =
      some [(.text "class", .ref 1)] := by decide +kernel
  have hchildren : World.withNumber.childrenGiven ⟨.ref 2, .ref 1, .none, []⟩ = [.int 1] := by
    decide +kernel
  have hcall : ConstructorCall (callValue (.ref 0) ⟨[.ref 2, .ref 1], []⟩)
      ⟨.ref 2, .ref 1, .none, []⟩ := .object (.ref 0) rfl
  have hrun : (callValue (.ref 0) ⟨[.ref 2, .ref 1], []⟩).runIn .withNumber =
      (.ok (.ref 8), .withNumberedNode) := runIn_of_fst (by decide +kernel)
  have hn : World.withNumberedNode.objects[8]? = some (.node numberedNode) := by decide +kernel
  have hsize : World.withNumber.objects.size = 4 := by decide
  refine .call hcall hrun hn rfl rfl ⟨Value.between_ref (Nat.zero_le 2) (by omega),
    Value.between_ref (Nat.zero_le 1) (by omega), Value.between_atom _ _ _⟩ ?_ ?_ ?_ (.refl _ _)
  · intro es hes e he
    rw [hmapping] at hes
    cases hes
    rw [List.mem_singleton] at he
    exact ⟨"class", by rw [he]⟩
  · rw [hchildren]
    intro u hu
    rw [List.mem_singleton] at hu
    exact .inl (by rw [hu]; rfl)
  · rw [hchildren]
    intro k m hk
    simp at hk

/-- The number becomes a text among the children, but not among the classes. -/
theorem output_completes_iff_numbered :
    (Operation.render (.ref 8)).runIn .withNumberedNode =
      (.error .unsuitable, .withNumberedNode) ∧
    ∃ w', (Operation.materialize (.ref 8) (.ref 3)).runIn .withNumberedNode =
      (.error .unsuitable, w') := by
  obtain ⟨-, -, hfails⟩ := output_completes_iff (d := 3) World.built_withNumberedNode
    (by decide +kernel)
  have hn : World.withNumberedNode.objects[8]? = some (.node numberedNode) := by decide +kernel
  have hclasses : World.withNumberedNode.objects[4]? = some (.list [.int 1]) := by decide +kernel
  refine hfails fun htexts => ?_
  obtain ⟨names, id, hid, hlist⟩ := htexts [] 8 _ (.here ⟨rfl, _, hn, rfl⟩) hn
  obtain rfl := Value.ref.inj hid
  rw [hclasses, Option.some.injEq, Object.list.injEq] at hlist
  cases names <;> simp at hlist

end Markup
