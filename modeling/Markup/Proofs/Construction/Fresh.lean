import Markup.Proofs.Construction.Call
import Markup.Proofs.Node.Ownership

/-!
# A new node shares nothing but its children

A constructor makes every collection of its node anew, whatever it was given (`World.MakesNew`), so
the node owns them (`World.Owns.of_makesNew`) and goes on owning them while nodes and collections
are changed in place.  The children themselves are the values that were given.
-/

namespace Markup

namespace World

/-- The collections of a node and the lists of its listeners are new objects, all different. -/
structure MakesNew (w w' : World) (n : Node Value) (rows : List (Value × Value)) : Prop where
  classes : ∃ items, w'.HasList n.classes items
  style : n.style = .none ∨ ∃ es, w'.HasMap n.style es
  listeners : w'.HasMap n.listeners rows
  held : ∀ row ∈ rows, ∃ items, w'.HasList row.2 items
  attrs : ∃ es, w'.HasMap n.attrs es
  children : ∃ items, w'.HasList n.children items
  distinct : (n.collections ++ rows.map (·.2)).Nodup
  new : ∀ k, .ref k ∈ n.collections ++ rows.map (·.2) → w.objects.size ≤ k

variable {w w' : World} {n : Node Value} {rows : List (Value × Value)}

theorem MakesNew.extend {w₀ : World} (h : w.MakesNew w' n rows)
    (hle : w₀.objects.size ≤ w.objects.size) : w₀.MakesNew w' n rows where
  classes := h.classes
  style := h.style
  listeners := h.listeners
  held := h.held
  attrs := h.attrs
  children := h.children
  distinct := h.distinct
  new k hk := Nat.le_trans hle (h.new k hk)

/-- An object among several that are made. -/
theorem get_addAll_of_eq {os : List (Object Value)} {o : Object Value}
    (before : List (Object Value)) (h : before ++ [o] <+: os) {k : Nat}
    (hk : k = w.objects.size + before.length) : (w.addAll os).objects[k]? = some o := by
  obtain ⟨after, rfl⟩ := h
  rw [hk, get_addAll_new]
  simp

end World

namespace AttributeSet

open World Operation

variable {s : AttributeSet} {w : World} {name flag : Value} {content : String}
  {children : List Term}

theorem rows_values (n : Nat) : ((s.rows n).stored Value.text Value.ref).map (·.2) =
    ((s.rows n).map (·.2)).map Value.ref := by
  simp [Entries.stored, Function.comp_def]

theorem mem_rows {n k : Nat} :
    Value.ref k ∈ ((s.rows n).stored Value.text Value.ref).map (·.2) ↔
      s.rowsAt n ≤ k ∧ k < s.listenersAt n := by
  rw [rows_values, rows, Entries.map_snd_numberedFrom, listenersAt, ← List.mem_range'_1]
  simp

theorem get_classes :
    (w.addAll (s.made w.objects.size name flag content children)).objects[
      w.objects.size]? = some (.list (values s.classes)) :=
  get_addAll_of_eq [] ⟨_, rfl⟩ rfl

theorem get_style {style : Style} (h : s.style = some style) :
    (w.addAll (s.made w.objects.size name flag content children)).objects[w.objects.size + 1]? =
      some (.map (style.map fun e => (.text e.1, .text e.2))) := by
  refine get_addAll_of_eq [.list (values s.classes)] ?_ rfl
  simp [made, cells, h, Style.objects]

/-- The lists of the listeners follow each other. -/
theorem get_row {j : Nat} {e : String × List Term} (h : s.listeners[j]? = some e) :
    (w.addAll (s.made w.objects.size name flag content children)).objects[
      s.rowsAt w.objects.size + j]? = some (.list (values e.2)) := by
  obtain ⟨hj, rfl⟩ := List.getElem?_eq_some_iff.mp h
  obtain ⟨before, after, hsplit, hlength⟩ : ∃ before after,
      s.listeners = before ++ s.listeners[j] :: after ∧ before.length = j := by
    refine ⟨s.listeners.take j, s.listeners.drop (j + 1), ?_, ?_⟩
    · rw [List.getElem_cons_drop, List.take_append_drop]
    · rw [List.length_take]
      omega
  generalize s.listeners[j] = e at hsplit
  refine get_addAll_of_eq (.list (values s.classes) ::
    (Style.objects s.style ++ before.map fun e => .list (values e.2))) ?_ ?_
  · simp [made, cells, hsplit]
  · rw [List.length_cons, List.length_append, List.length_map, rowsAt]
    omega

theorem get_listeners :
    (w.addAll (s.made w.objects.size name flag content children)).objects[
      s.listenersAt w.objects.size]? = some (.map ((s.rows w.objects.size).stored .text .ref)) := by
  refine get_addAll_of_eq (.list (values s.classes) :: (Style.objects s.style ++
    s.listeners.map fun e => .list (values e.2))) ?_ ?_
  · simp [made, cells]
  · rw [List.length_cons, List.length_append, List.length_map, listenersAt, rowsAt]
    omega

theorem get_attrs :
    (w.addAll (s.made w.objects.size name flag content children)).objects[
      s.listenersAt w.objects.size + 1]? =
        some (.map (s.attrs.map fun e => (e.1.toValue, .atom e.2.toAtom))) := by
  refine get_addAll_of_eq (.list (values s.classes) :: (Style.objects s.style ++
    (s.listeners.map (fun e => .list (values e.2)) ++
      [.map ((s.rows w.objects.size).stored .text .ref)]))) ?_ ?_
  · simp [made, cells]
  · rw [List.length_cons, List.length_append, List.length_append, List.length_map, listenersAt,
      rowsAt, List.length_singleton]
    omega

theorem get_children :
    (w.addAll (s.made w.objects.size name flag content children)).objects[
      s.listenersAt w.objects.size + 2]? = some (.list (values children)) := by
  refine get_addAll_of_eq (.list (values s.classes) :: (Style.objects s.style ++
    (s.listeners.map (fun e => .list (values e.2)) ++
      [.map ((s.rows w.objects.size).stored .text .ref),
        .map (s.attrs.map fun e => (e.1.toValue, .atom e.2.toAtom))]))) ?_ ?_
  · simp [made, cells]
  · simp only [List.length_cons, List.length_append, List.length_map, listenersAt, rowsAt,
      List.length_nil]
    omega

theorem get_node :
    (w.addAll (s.made w.objects.size name flag content children)).objects[
      s.listenersAt w.objects.size + 3]? = some (.node (s.node w.objects.size name flag content)) :=
  get_addAll_of_eq (s.cells w.objects.size children) (List.prefix_refl _)
    (add_length_cells s w.objects.size children).symm

/-- The collections of a new node, and the lists of its listeners, have numbers one by one. -/
theorem mem_collections {k : Nat} :
    .ref k ∈ (s.node w.objects.size name flag content).collections ++
      ((s.rows w.objects.size).stored Value.text Value.ref).map (·.2) ↔
      w.objects.size ≤ k ∧ k < s.listenersAt w.objects.size + 3 := by
  rw [List.mem_append, mem_rows]
  simp only [Node.collections, node, styleValue, listenersAt, rowsAt, List.mem_cons,
    List.not_mem_nil, or_false]
  cases s.style <;> simp [Style.objects] <;> omega

/-- The node that a constructor makes has new collections. -/
theorem makesNew : w.MakesNew (w.addAll (s.made w.objects.size name flag content children))
    (s.node w.objects.size name flag content)
    ((s.rows w.objects.size).stored Value.text Value.ref) where
  classes := ⟨_, _, rfl, get_classes⟩
  style := by
    cases h : s.style with
    | none => exact .inl (by rw [node, styleValue, h])
    | some style => exact .inr ⟨_, _, by rw [node, styleValue, h], get_style h⟩
  listeners := ⟨_, rfl, get_listeners⟩
  held row hrow := by
    obtain ⟨e, he, rfl⟩ := List.mem_map.mp hrow
    have hmem : Value.ref e.2 ∈ ((s.rows w.objects.size).stored Value.text Value.ref).map (·.2) :=
      List.mem_map_of_mem hrow
    obtain ⟨hle, hlt⟩ := mem_rows.mp hmem
    obtain ⟨j, hj⟩ := Nat.exists_eq_add_of_le hle
    have hlength : j < s.listeners.length := by
      rw [listenersAt] at hlt
      omega
    refine ⟨values s.listeners[j].2, e.2, rfl, ?_⟩
    rw [hj]
    exact get_row (List.getElem?_eq_getElem hlength)
  attrs := ⟨_, _, rfl, get_attrs⟩
  children := ⟨_, _, rfl, get_children⟩
  distinct := by
    rw [List.nodup_append]
    refine ⟨?_, ?_, ?_⟩
    · simp only [Node.collections, node, styleValue, listenersAt, rowsAt]
      cases s.style <;> simp [Style.objects] <;> omega
    · rw [rows_values, rows, Entries.map_snd_numberedFrom]
      exact List.Nodup.map (fun _ _ h => Value.ref.inj h) List.nodup_range'
    · intro v hv u hu heq
      subst heq
      obtain ⟨k, rfl⟩ : ∃ k, v = .ref k := by
        rw [rows_values, List.mem_map] at hu
        obtain ⟨k, -, rfl⟩ := hu
        exact ⟨k, rfl⟩
      rw [mem_rows] at hu
      simp only [Node.collections, node, styleValue, listenersAt, rowsAt, List.mem_cons,
        List.not_mem_nil, or_false] at hu hv
      cases hs : s.style <;> simp [hs, Style.objects] at hu hv <;> omega
  new k hk := (mem_collections.mp hk).1

/-- The numbers of what belongs to a new node. -/
theorem belongs_iff_between {k : Nat} :
    (w.addAll (s.made w.objects.size name flag content children)).Belongs
        (s.listenersAt w.objects.size + 3) k ↔
      w.objects.size ≤ k ∧ k < s.listenersAt w.objects.size + 3 := by
  rw [belongs_iff get_node ⟨_, rfl, get_listeners⟩, ← mem_collections, List.mem_append]

/-- A new node owns its collections. -/
theorem owns_made (hw : w.Sound) :
    (w.addAll (s.made w.objects.size name flag content children)).Owns
      (s.listenersAt w.objects.size + 3) := by
  have hnew : w.MakesNew (w.addAll (s.made w.objects.size name flag content children)) _ _ :=
    makesNew
  refine ⟨extends_made.sound hw, ⟨_, get_node, hnew.distinct.of_append_left, _, _, rfl,
    get_listeners⟩, ?_⟩
  intro j o ho hj hbelongs k hk
  rw [belongs_iff_between] at hbelongs ⊢
  have hsize := lt_size ho
  rw [size_made] at hsize
  have hlt : j < w.objects.size := by omega
  rw [get_addAll_old hlt] at ho
  have hbound := (hw j o ho _ hk k rfl).2
  omega

end AttributeSet

open Relation (ReflTransGen)

open World in
/--
A call that makes a node makes all of its collections, which are new and different objects, and
keeps the nodes among the children that it was given.  From then on, whatever is done elsewhere
leaves what belongs to the node as it is, and whatever is done through the node leaves all the rest
as it is, in any order of the two; only nothing that belongs to the node may be stored elsewhere.
-/
theorem constructor_owns {x : Operation Value} {a : Arguments} {w w₁ : World} {i : Nat}
    {n : Node Value} (hw : w.Reachable) (hx : ConstructorCall x a)
    (hargs : w.Has a.one ∧ w.Has a.two ∧ w.Has a.three)
    (hrun : x.runIn w = (.ok (.ref i), w₁)) (hn : w₁.objects[i]? = some (.node n)) :
    (∃ rows, w.MakesNew w₁ n rows) ∧
      (∃ children, w₁.HasList n.children children ∧
        List.Forall₂ (fun given child => ∀ k m, given = .ref k →
          w.objects[k]? = some (.node m) → child = given) (w.childrenGiven a) children) ∧
      ∀ w₂, ReflTransGen (fun u u' => StepElsewhere i u u' ∨ StepThrough i u u') w₁ w₂ →
        (∀ w₃, ReflTransGen (StepElsewhere i) w₂ w₃ → w₃.objects[i]? = some (.node n) ∧
          ∀ k, w₂.Belongs i k → w₃.objects[k]? = w₂.objects[k]?) ∧
        ∀ w₃, ReflTransGen (StepThrough i) w₂ w₃ →
          ∀ k o, w₂.objects[k]? = some o → ¬ w₂.Belongs i k → w₃.objects[k]? = some o := by
  obtain ⟨w₀, name, flag, hext, hconstruct⟩ := hx.exists_construct hrun hn
  obtain ⟨s, content, children, flag, hdescribe, hi, rfl⟩ :=
    Operation.exists_made_of_construct hconstruct
  obtain rfl := Value.ref.inj hi
  rw [AttributeSet.get_node, Option.some.injEq, Object.node.injEq] at hn
  subst hn
  refine ⟨⟨_, AttributeSet.makesNew.extend hext.size_le⟩, ⟨_, ⟨_, rfl, AttributeSet.get_children⟩,
    ?_⟩, ?_⟩
  · have hgiven : w₀.childrenGiven a = w.childrenGiven a := by
      rw [childrenGiven, childrenGiven, hext.sequence?_eq hargs.1, hext.sequence?_eq hargs.2.1,
        hext.sequence?_eq hargs.2.2]
    rw [← hgiven]
    refine (children_of_describe hdescribe).imp fun given child hchild k m hk hm => ?_
    exact hchild k m hk (hext.kept hm)
  · intro w₂ hrun₂
    have howns : (w₀.addAll (s.made w₀.objects.size name flag content children)).Owns
        (s.listenersAt w₀.objects.size + 3) := AttributeSet.owns_made (hext.sound hw.sound)
    obtain ⟨howns₂, hnode₂⟩ := howns.run hrun₂
    refine ⟨fun w₃ hrun₃ => ?_, fun w₃ hrun₃ => (howns₂.runThrough hrun₃).kept⟩
    have hkeeps := howns₂.runElsewhere hrun₃
    refine ⟨?_, hkeeps.kept⟩
    rw [hkeeps.node, hnode₂, AttributeSet.get_node]

/-! ### A node made of what another part of the program keeps -/

/-- A world with a list of classes, and a mapping that has it for its classes and a listener. -/
def World.withGiven : World :=
  (World.initial.add (.list [.text "x"])).add
    (.map [(.text "class", .ref 144), (.text "onclick", .ref 1)])

/-- The node made of that mapping. -/
def givenNode : Node Value where
  name := .text "a"
  isVoid := .bool false
  id := .none
  classes := .ref 146
  style := .none
  listeners := .ref 148
  attrs := .ref 149
  content := .text ""
  children := .ref 150

/-- The world after that node was made. -/
def World.withGivenNode : World :=
  ((Operation.callValue (.ref 1) ⟨[.ref 145], []⟩).runIn .withGiven).2

theorem World.reachable_withGiven : World.withGiven.Reachable := by
  have hsize : World.initial.objects.size = 144 := by decide +kernel
  refine .add (.add .initial fun v hv => nomatch hv) fun v hv => ?_
  have hmem : v ∈ [Value.ref 144, Value.ref 1] := hv
  intro id hid
  subst hid
  rw [World.size_add, hsize]
  simp at hmem
  omega

open Operation World in
/-- Appending to the list that was given leaves the classes of the new node as they are. -/
theorem constructor_owns_given :
    World.withGivenNode.objects[151]? = some (.node givenNode) ∧
      (∃ rows, World.withGiven.MakesNew .withGivenNode givenNode rows) ∧
      World.withGivenNode.objects[146]? = some (.list [.text "x"]) ∧
      ((append (.ref 144) (.text "y")).runIn .withGivenNode).2.objects[146]? =
        some (.list [.text "x"]) := by
  have hrun : (callValue (.ref 1) ⟨[.ref 145], []⟩).runIn .withGiven =
      (.ok (.ref 151), .withGivenNode) := runIn_of_fst (by decide +kernel)
  have hn : World.withGivenNode.objects[151]? = some (.node givenNode) := by decide +kernel
  have hclasses : World.withGivenNode.objects[146]? = some (.list [.text "x"]) := by
    decide +kernel
  have hsize : World.withGiven.objects.size = 146 := by decide +kernel
  have hargs : World.withGiven.Has (.ref 145) := Value.between_ref (Nat.zero_le _) (by omega)
  obtain ⟨⟨rows, hnew⟩, -, hkept⟩ := constructor_owns World.reachable_withGiven
    (.object (.ref 1) (a := ⟨.ref 145, .none, .none, []⟩) rfl)
    ⟨hargs, Value.between_atom _ _ _, Value.between_atom _ _ _⟩ hrun hn
  have hbelongs : ∀ k, World.withGivenNode.Belongs 151 k → 146 ≤ k := by
    intro k hk
    rw [belongs_iff hn hnew.listeners, ← List.mem_append] at hk
    rw [← hsize]
    exact hnew.new k hk
  have hstep : StepElsewhere 151 .withGivenNode
      ((append (.ref 144) (.text "y")).runIn .withGivenNode).2 := by
    refine .change (.append (.ref 144) (.text "y")) trivial (by decide) ?_ (fun _ h => nomatch h)
    intro k hk hbelong
    cases hk
    exact absurd (hbelongs 144 hbelong) (by decide)
  have hsame := ((hkept .withGivenNode .refl).1 _ (.single hstep)).2 146
    ((belongs_iff hn hnew.listeners).mpr (.inl List.mem_cons_self))
  exact ⟨hn, ⟨rows, hnew⟩, hclasses, hsame.trans hclasses⟩

/-- A world with a node whose listeners and attributes are the same map. -/
def World.withShared : World :=
  (((World.initial.add (.map [])).add (.list [])).add (.list [])).add (.node
    ⟨.text "p", .bool false, .none, .ref 145, .none, .ref 144, .ref 144, .text "", .ref 146⟩)

theorem World.reachable_withShared : World.withShared.Reachable := by
  have hsize : World.initial.objects.size = 144 := by decide +kernel
  refine .add (.add (.add (.add .initial fun v hv => nomatch hv) fun v hv => nomatch hv)
    fun v hv => nomatch hv) fun v hv => ?_
  have hmem : v ∈ [Value.ref 145, .none, .ref 144, .ref 144, .ref 146] := hv
  intro id hid
  subst hid
  simp only [World.size_add, hsize]
  simp [Value.none] at hmem
  omega

open Operation in
/--
A collection of a new node that is stored as an attribute of another node can be changed through
that node: where its listeners are its attributes, `on` appends to what was stored.
-/
theorem constructor_shares_stored :
    ∃ (w w₁ w₂ : World) (n : Node Value) (c c' : NodeChange), w.Reachable ∧
      (callValue (.ref 1) ⟨[], []⟩).runIn w = (.ok (.ref 152), w₁) ∧
      w₁.objects[152]? = some (.node n) ∧
      (do c.run (.ref 147); c'.run (.ref 147) : Operation Unit).runIn w₁ = (.ok (), w₂) ∧
      w₁.HasList n.classes [] ∧ w₂.HasList n.classes [.ref 1] := by
  let c := NodeChange.setAttr (.text "click") (.ref 148)
  let c' := NodeChange.listen (.text "click") (.ref 1)
  let w₁ := ((callValue (.ref 1) ⟨[], []⟩).runIn .withShared).2
  let changes : Operation Unit := do c.run (.ref 147); c'.run (.ref 147)
  exact ⟨.withShared, w₁, (changes.runIn w₁).2,
    ⟨.text "a", .bool false, .none, .ref 148, .none, .ref 149, .ref 150, .text "", .ref 151⟩,
    c, c', World.reachable_withShared, runIn_of_fst (by decide +kernel), by decide +kernel,
    runIn_of_fst (by decide +kernel), ⟨148, rfl, by decide +kernel⟩,
    ⟨148, rfl, by decide +kernel⟩⟩

end Markup
