import Markup.Proofs.Construction
import Markup.Proofs.Document.Memory
import Markup.Proofs.Document.Outer
import Markup.Proofs.Text.Entity

/-!
# Where the two written forms of a node agree

A node can be written as it is, or as the element that a document in memory makes of it.  The second
form leaves out an id that is an empty text, classes that are one empty text, and the closing tag of
a void node that has nothing below it but empty texts; `Tree.Loses` says of a node that one of these
is so.  It leaves out nothing else and adds nothing, so what is missing in one place is not made up
for in another: the form of the element is never longer, and it is the same exactly if no node of
the tree loses anything (`Tree.keepsIf_outer`).

What constructors make is inside this (`outerHtml_eq_render_iff`), and so the two forms of a node
with an empty id differ (`outerHtml_ne_render_empty_id`).  For nodes of any origin it is enough that
no plain attribute is called `style` (`outerHtml_le_render`).
-/

namespace Markup

/-! ## The parts of the element of a node -/

namespace ElementParts

theorem setAll_attributes (p : ElementParts) (es : Entries String String) :
    p.setAll (es.map fun e => .attribute e.1 e.2) =
      { p with attributes := p.attributes.update es } := by
  induction es generalizing p with
  | nil => rfl
  | cons e es ih => exact ih (p.set (.attribute e.1 e.2))

theorem setAll_listeners (p : ElementParts) (rows : List (String × Value)) :
    p.setAll (rows.map fun r => .listener r.1 r.2) =
      { p with listeners := rows.foldl (fun m r => m.extend r.1 [r.2]) p.listeners } := by
  induction rows generalizing p with
  | nil => rfl
  | cons r rows ih => exact ih (p.set (.listener r.1 r.2))

@[simp] theorem isVoid_setAll (p : ElementParts) (settings : List Setting) :
    (p.setAll settings).isVoid = p.isVoid := by
  induction settings generalizing p with
  | nil => rfl
  | cons s settings ih => rw [setAll_cons, ih, isVoid_set]

end ElementParts

namespace Head

@[simp] theorem isVoid_parts (h : Head) : h.parts.isVoid = h.isVoid :=
  ElementParts.isVoid_setAll _ _

/-- The listeners, each with its event. -/
def rows (h : Head) : List (String × Value) := h.listeners.flatMap fun e => e.2.map (e.1, ·)

theorem listenerSettings_eq (h : Head) :
    h.listenerSettings = h.rows.map fun r => .listener r.1 r.2 := by
  simp [listenerSettings, rows, List.map_flatMap, Function.comp_def]

/-- The attributes that the element gets: the plain ones that are shown, then the style. -/
def attributes (h : Head) : Entries String String :=
  h.shownAttrs ++ (h.style.map fun s => ("style", s.write)).toList

theorem not_mem_keys_shownAttrs {h : Head} {key : String} (hkey : key ∉ Entries.keys h.attrs) :
    key ∉ Entries.keys h.shownAttrs :=
  fun hmem => hkey (h.keys_shownAttrs.subset hmem)

theorem setAll_attrSettings (h : Head) (p : ElementParts) :
    p.setAll h.attrSettings = { p with attributes := p.attributes.update h.shownAttrs } :=
  p.setAll_attributes h.shownAttrs

theorem setAll_idSetting (h : Head) (p : ElementParts) :
    p.setAll h.idSetting = { p with id := h.id.getD p.id } := by
  rw [idSetting]
  cases h.id <;> rfl

/-- Without classes the class stays the empty text that it is at first. -/
theorem setAll_classSetting (h : Head) {p : ElementParts} (hp : p.className = "") :
    p.setAll h.classSetting = { p with className := h.className } := by
  rw [classSetting, className]
  cases h.classes with
  | nil =>
    show p = { p with className := "" }
    rw [← hp]
  | cons c cs => rfl

/-- The style is a new attribute unless a plain one has its name. -/
theorem setAll_styleSetting {h : Head} (hstyle : "style" ∉ Entries.keys h.attrs)
    {p : ElementParts} (hp : p.attributes = h.shownAttrs) :
    p.setAll h.styleSetting = { p with attributes := h.attributes } := by
  rw [styleSetting, attributes]
  cases h.style with
  | none =>
    show p = { p with attributes := h.shownAttrs ++ [] }
    rw [List.append_nil, ← hp]
  | some s =>
    show { p with attributes := p.attributes.set "style" s.write } = _
    rw [hp, Entries.set_of_not_mem (not_mem_keys_shownAttrs hstyle)]
    rfl

/-- What the element of a node holds beside its children. -/
theorem parts_eq {h : Head} (hstyle : "style" ∉ Entries.keys h.attrs) :
    h.parts = ⟨h.name, h.isVoid, h.id.getD "", h.className, h.attributes,
      h.rows.foldl (fun m r => m.extend r.1 [r.2]) []⟩ := by
  have hplain : Entries.update [] h.shownAttrs = h.shownAttrs :=
    Entries.update_of_nodup (h.attrs_nodup.sublist h.keys_shownAttrs)
  rw [parts, settings, ElementParts.setAll_append, ElementParts.setAll_append,
    ElementParts.setAll_append, ElementParts.setAll_append, setAll_attrSettings, setAll_idSetting,
    setAll_classSetting h rfl, setAll_styleSetting hstyle hplain, listenerSettings_eq,
    ElementParts.setAll_listeners]
  rfl

/-- What the opening tag of the element shows. -/
theorem pairs_parts {h : Head} (hstyle : "style" ∉ Entries.keys h.attrs) :
    h.parts.pairs = propertyPairs "id" (h.id.getD "") ++ propertyPairs "class" h.className ++
      (h.style.map fun s => ("style", s.write)).toList ++ h.shownAttrs := by
  have hshown : "style" ∉ Entries.keys h.shownAttrs := not_mem_keys_shownAttrs hstyle
  have hget : (h.attributes.get? "style").map (("style", ·)) =
      h.style.map fun s => ("style", s.write) := by
    rw [attributes, Entries.get?_append_of_not_mem hshown]
    cases h.style <;> rfl
  have hothers : h.attributes.filter (fun e => !e.1 == "style") = h.shownAttrs := by
    have hkeep : h.shownAttrs.filter (fun e => !e.1 == "style") = h.shownAttrs := by
      refine List.filter_eq_self.mpr fun e he => ?_
      have hne : e.1 ≠ "style" := fun heq => hshown (List.mem_map.mpr ⟨e, he, heq⟩)
      simp [hne]
    rw [attributes, List.filter_append, hkeep]
    cases h.style <;> simp
  rw [parts_eq hstyle, ElementParts.pairs]
  simp only [hget, hothers]

end Head

/-! ## Leaving something out -/

/-- A text is another one if a condition holds, and shorter if it does not. -/
structure KeepsIf (p : Prop) (short long : String) : Prop where
  length_le : short.length ≤ long.length
  of_length : short.length = long.length → p
  eq_of : p → short = long

namespace KeepsIf

variable {p q : Prop} {a a' b b' : String}

theorem same (a : String) : KeepsIf True a a := ⟨Nat.le_refl _, fun _ => trivial, fun _ => rfl⟩

theorem eq_iff (h : KeepsIf p a a') : a = a' ↔ p :=
  ⟨fun heq => h.of_length (congrArg String.length heq), h.eq_of⟩

theorem congr (h : KeepsIf p a a') (hiff : p ↔ q) : KeepsIf q a a' :=
  ⟨h.length_le, fun hlength => hiff.mp (h.of_length hlength), fun hq => h.eq_of (hiff.mpr hq)⟩

theorem of_lt (hlt : a.length < a'.length) (hp : ¬p) : KeepsIf p a a' :=
  ⟨Nat.le_of_lt hlt, fun hlength => absurd hlength (Nat.ne_of_lt hlt), fun h => absurd h hp⟩

/-- What is left out of one part is not made up for by another. -/
theorem append (h : KeepsIf p a a') (h' : KeepsIf q b b') :
    KeepsIf (p ∧ q) (a ++ b) (a' ++ b') where
  length_le := by
    have hle := h.length_le
    have hle' := h'.length_le
    rw [String.length_append, String.length_append]
    omega
  of_length hlength := by
    have hle := h.length_le
    have hle' := h'.length_le
    rw [String.length_append, String.length_append] at hlength
    exact ⟨h.of_length (by omega), h'.of_length (by omega)⟩
  eq_of hpq := by rw [h.eq_of hpq.1, h'.eq_of hpq.2]

end KeepsIf

namespace Html

theorem attributesText_append (first later : List (String × String)) :
    attributesText (first ++ later) = attributesText first ++ attributesText later := by
  simp [attributesText, String.join_append]

theorem length_attributesText_cons (e : String × String) (pairs : List (String × String)) :
    0 < (attributesText (e :: pairs)).length := by
  simp only [attributesText, List.map_cons, String.join_cons, attributeText, String.length_append]
  have hspace : " ".length = 1 := rfl
  omega

/-- A property of an element is shown unless it is empty. -/
theorem keepsIf_propertyPairs (key value : String) :
    KeepsIf (value ≠ "") (attributesText (propertyPairs key value))
      (attributesText [(key, value)]) := by
  rw [propertyPairs]
  by_cases h : value = ""
  · have hpos := length_attributesText_cons (key, value) []
    have hnil : (attributesText []).length = 0 := rfl
    rw [if_pos h]
    exact ⟨by omega, fun hlength => by omega, fun hne => absurd h hne⟩
  · rw [if_neg h]
    exact (KeepsIf.same _).congr ⟨fun _ => h, fun _ => trivial⟩

end Html

namespace Head

open Html

/-- The classes joined are empty only if there are none or the only one is empty. -/
theorem className_eq_empty (h : Head) : h.className = "" ↔ h.classes = [] ∨ h.classes = [""] := by
  rw [className]
  rcases h.classes with _ | ⟨c, _ | ⟨d, cs⟩⟩
  · simp
  · simp
  · rw [String.intercalate_cons_cons]
    simp

theorem keepsIf_id (h : Head) : KeepsIf (h.id ≠ some "")
    (attributesText (propertyPairs "id" (h.id.getD "")))
    (attributesText (h.id.map ("id", ·)).toList) := by
  cases h.id with
  | none => exact (KeepsIf.same _).congr (by simp)
  | some s => exact (keepsIf_propertyPairs "id" s).congr (by simp)

theorem keepsIf_classes (h : Head) : KeepsIf (h.classes ≠ [""])
    (attributesText (propertyPairs "class" h.className))
    (attributesText (if h.classes.isEmpty then [] else [("class", h.className)])) := by
  by_cases hc : h.classes = []
  · have hname : h.className = "" := h.className_eq_empty.mpr (.inl hc)
    rw [hname, hc]
    exact (KeepsIf.same _).congr (by simp)
  · rw [if_neg (by simpa using hc)]
    refine (keepsIf_propertyPairs "class" h.className).congr ?_
    rw [ne_eq, className_eq_empty, or_iff_right hc]

/-- The opening tag of the element leaves out an empty id and an empty class. -/
theorem keepsIf_opening {h : Head} (hstyle : "style" ∉ Entries.keys h.attrs) :
    KeepsIf (h.id ≠ some "" ∧ h.classes ≠ [""]) (openingTag h.name h.parts.pairs)
      (openingTag h.name h.pairs) := by
  rw [openingTag, openingTag, pairs_parts hstyle, pairs, ownPairs]
  simp only [attributesText_append]
  have hname := KeepsIf.same ("<" ++ h.name)
  have hstyleText := KeepsIf.same (attributesText (h.style.map fun s => ("style", s.write)).toList)
  have hshown := KeepsIf.same (attributesText h.shownAttrs)
  have hpairs := ((h.keepsIf_id.append h.keepsIf_classes).append hstyleText).append hshown
  refine ((hname.append hpairs).append (.same ">")).congr ?_
  simp

end Head

/-! ## Whole trees -/

namespace Tree

open Html

/-- A void node has children, but nothing below it except empty texts. -/
def HidesEmpty (h : Head) (children : List Tree) : Prop :=
  h.isVoid ∧ h.text = "" ∧ children ≠ [] ∧ ∀ c ∈ children, c = .text ""

/--
What the text of its element leaves out of a node: an empty id, an empty class, or the closing tag
of a void node that has only empty texts below it.
-/
def Loses (n : Head × List Tree) : Prop :=
  n.1.id = some "" ∨ n.1.classes = [""] ∨ HidesEmpty n.1 n.2

theorem outer_eq_empty (t : Tree) : t.element.outer = "" ↔ t = .text "" := by
  cases t with
  | text s =>
    rw [element, ElementTree.outer, text.injEq, ← Text.escape_empty]
    exact ⟨Text.escape_injective, congrArg Text.escape⟩
  | node h children =>
    rw [element, ElementTree.outer]
    split <;> simp [openingTag]

theorem outerOf_eq_empty (ts : List Tree) :
    ElementTree.outerOf (elementsOf ts) = "" ↔ ∀ t ∈ ts, t = .text "" := by
  induction ts with
  | nil => simp [elementsOf, ElementTree.outerOf]
  | cons t ts ih => simp [elementsOf, ElementTree.outerOf, outer_eq_empty, ih]

/-- What is inside the element of a node: the content, then the children. -/
theorem outerOf_inner (h : Head) (children : List Tree) :
    ElementTree.outerOf (h.contentElement ++ elementsOf children) =
      Text.escape h.text ++ ElementTree.outerOf (elementsOf children) := by
  rw [Head.contentElement, Head.text]
  cases h.content with
  | none => simp [Text.escape]
  | some s => rfl

/-- The element of a node shows nothing inside exactly if all of it is empty. -/
theorem inner_eq_empty (h : Head) (children : List Tree) :
    ElementTree.outerOf (h.contentElement ++ elementsOf children) = "" ↔
      h.text = "" ∧ ∀ c ∈ children, c = .text "" := by
  have htext : Text.escape h.text = "" ↔ h.text = "" :=
    ⟨fun heq => Text.escape_injective (heq.trans Text.escape_empty.symm),
      fun heq => by rw [heq, Text.escape_empty]⟩
  rw [outerOf_inner, String.append_eq_empty_iff, htext, outerOf_eq_empty]

/-- The element has no closing tag where the node has none, and where it hides empty texts. -/
theorem opens_iff (h : Head) (children : List Tree) :
    (h.isVoid && ElementTree.outerOf (h.contentElement ++ elementsOf children) == "") = true ↔
      h.opensOnly children = true ∨ HidesEmpty h children := by
  have hopens : h.opensOnly children = true ↔ h.isVoid = true ∧ h.text = "" ∧ children = [] := by
    simp only [Head.opensOnly, Bool.and_eq_true, List.isEmpty_iff, beq_iff_eq]
    tauto
  rw [Bool.and_eq_true, beq_iff_eq, inner_eq_empty, hopens, HidesEmpty]
  by_cases hnil : children = []
  · simp [hnil]
  · simp [hnil]

theorem keepsIf_outerOf {p : Tree → Prop} {ts : List Tree}
    (hts : ∀ t ∈ ts, KeepsIf (p t) t.element.outer t.html) :
    KeepsIf (∀ t ∈ ts, p t) (ElementTree.outerOf (elementsOf ts)) (htmlOf ts) := by
  induction ts with
  | nil => exact (KeepsIf.same "").congr (by simp)
  | cons t ts ih =>
    have hfirst := hts t List.mem_cons_self
    have hlater := ih fun u hu => hts u (List.mem_cons_of_mem t hu)
    exact (hfirst.append hlater).congr List.forall_mem_cons.symm

/--
The text of the element of a tree is the written form of the tree if no node loses anything, and
shorter if one does.
-/
theorem keepsIf_outer {t : Tree} (hstyle : ∀ n ∈ t.nodes, "style" ∉ Entries.keys n.1.attrs) :
    KeepsIf (∀ n ∈ t.nodes, ¬ Loses n) t.element.outer t.html := by
  induction t with
  | text s => exact (KeepsIf.same (Text.escape s)).congr (by simp)
  | node h children ih =>
    rw [nodes_node] at hstyle
    obtain ⟨hhead, hbelow⟩ := List.forall_mem_cons.mp hstyle
    have hopening := Head.keepsIf_opening (h := h) hhead
    have hchildren : KeepsIf (∀ c ∈ children, ∀ n ∈ c.nodes, ¬ Loses n)
        (ElementTree.outerOf (elementsOf children)) (htmlOf children) :=
      keepsIf_outerOf fun c hc =>
        ih c hc fun n hn => hbelow n (List.mem_flatMap.mpr ⟨c, hc, hn⟩)
    have hname : h.parts.name = h.name := by rw [Head.parts_eq hhead]
    rw [element, ElementTree.outer, html, Head.isVoid_parts, hname]
    by_cases hopens : h.opensOnly children = true
    · -- neither form has anything after the opening tag
      have hnil : children = [] := by
        simp only [Head.opensOnly, Bool.and_eq_true, List.isEmpty_iff] at hopens
        exact hopens.1.2
      rw [if_pos ((opens_iff h children).mpr (.inl hopens)), if_pos hopens]
      refine hopening.congr ?_
      simp [hnil, Loses, HidesEmpty]
    · rw [if_neg hopens]
      by_cases hhides : HidesEmpty h children
      · -- only the written form of the node has a closing tag
        have hlength : 0 < (closingTag h.name).length := by
          rw [closingTag, String.length_append, String.length_append]
          exact Nat.add_pos_right _ Nat.one_pos
        have hle := hopening.length_le
        rw [if_pos ((opens_iff h children).mpr (.inr hhides))]
        refine .of_lt ?_ fun hnone => hnone _ List.mem_cons_self (.inr (.inr hhides))
        simp only [String.length_append]
        omega
      · have hboth : ¬(h.opensOnly children = true ∨ HidesEmpty h children) :=
          not_or.mpr ⟨hopens, hhides⟩
        rw [if_neg (mt (opens_iff h children).mp hboth), outerOf_inner, ← String.append_assoc]
        have hall := ((hopening.append (.same (Text.escape h.text))).append hchildren).append
          (.same (closingTag h.name))
        refine hall.congr ?_
        rw [nodes_node, List.forall_mem_cons, List.forall_mem_flatMap]
        simp [Loses, hhides]

end Tree

/-! ## Rendering against materializing -/

/--
Rendering a tree of nodes that constructors made, and asking the element that a document in memory
makes of it for its text, both succeed, and they agree exactly if no node of the tree loses
anything.
-/
theorem outerHtml_eq_render_iff {w : World} {d : Nat} {v : Value} {h : Head}
    {children : List Tree} (hd : w.objects[d]? = some (.memoryDocument []))
    (hv : (w.read v).Shows (.node h children))
    (hmade : ∀ n ∈ (Tree.node h children).nodes, n.1.Constructed) :
    ∃ text e w' text', (Operation.render v).runIn w = (.ok text, w) ∧
      (Operation.materialize v (.ref d)).runIn w = (.ok e, w') ∧
      (Operation.outerHtml e).runIn w' = (.ok (.text text'), w') ∧
      (text' = text ↔ ∀ n ∈ (Tree.node h children).nodes, ¬ Tree.Loses n) := by
  obtain ⟨e, w', hmake, -, hholds⟩ := runIn_materialize_memory hd hv
  have hkeeps : KeepsIf (∀ n ∈ (Tree.node h children).nodes, ¬ Tree.Loses n)
      (Tree.node h children).element.outer (Tree.node h children).html :=
    Tree.keepsIf_outer fun n hn => (hmade n hn).not_mem_keys (by decide)
  rw [Tree.element] at hholds hkeeps
  exact ⟨_, e, w', _, Operation.render_of_shows hv, hmake, Operation.runIn_outerHtml hholds,
    hkeeps.eq_iff⟩

open World in
/-- An element that is made with an empty id has two different texts. -/
theorem outerHtml_ne_render_empty_id : ∃ v w text e w' text',
    (construct (.text "div") (.bool false) (.ref 0) .none .none []).runIn
      (ofObjects #[.map [(.text "id", .text "")], .memoryDocument []]) = (.ok v, w) ∧
    (Operation.render v).runIn w = (.ok text, w) ∧
    (Operation.materialize v (.ref 1)).runIn w = (.ok e, w') ∧
    (Operation.outerHtml e).runIn w' = (.ok (.text text'), w') ∧ text' ≠ text := by
  have hrun : (construct (.text "div") (.bool false) (.ref 0) .none .none []).runIn
      (ofObjects #[.map [(.text "id", .text "")], .memoryDocument []]) =
      (.ok (.ref 6), ofObjects #[.map [(.text "id", .text "")], .memoryDocument [],
        .list [], .map [], .map [], .list [],
        .node ⟨.text "div", .bool false, .text "", .ref 2, .none, .ref 3, .ref 4, .text "",
          .ref 5⟩]) := rfl
  have hv : ((ofObjects #[.map [(.text "id", .text "")], .memoryDocument [],
      .list [], .map [], .map [], .list [],
      .node ⟨.text "div", .bool false, .text "", .ref 2, .none, .ref 3, .ref 4, .text "",
        .ref 5⟩]).read (.ref 6)).Shows
      (.node { Head.bare "div" false with id := some "", content := some "" } []) :=
    .node ⟨rfl, rfl, rfl, ⟨_, rfl⟩, rfl, ⟨_, _, rfl, .nil⟩, ⟨_, rfl⟩, rfl⟩ rfl .nil
  obtain ⟨text, e, w', text', hrender, hmake, houter, hiff⟩ :=
    outerHtml_eq_render_iff (d := 1) rfl hv fun n hn => by
      rw [Tree.nodes_node, List.flatMap_nil, List.mem_singleton] at hn
      rw [hn]
      exact .made hrun hv
  exact ⟨_, _, text, e, w', text', hrun, hrender, hmake, houter, fun heq =>
    hiff.mp heq _ List.mem_cons_self (.inl rfl)⟩

/--
Rendering a tree of nodes whose plain attributes do not include a style, and asking its element for
its text, both succeed.  The text of the element is never longer, and the two are the same exactly
if no node of the tree loses anything.
-/
theorem outerHtml_le_render {w : World} {d : Nat} {v : Value} {h : Head} {children : List Tree}
    (hd : w.objects[d]? = some (.memoryDocument []))
    (hv : (w.read v).Shows (.node h children))
    (hstyle : ∀ n ∈ (Tree.node h children).nodes, "style" ∉ Entries.keys n.1.attrs) :
    ∃ text e w' text', (Operation.render v).runIn w = (.ok text, w) ∧
      (Operation.materialize v (.ref d)).runIn w = (.ok e, w') ∧
      (Operation.outerHtml e).runIn w' = (.ok (.text text'), w') ∧
      text'.length ≤ text.length ∧
      (text' = text ↔ ∀ n ∈ (Tree.node h children).nodes, ¬ Tree.Loses n) := by
  obtain ⟨e, w', hmake, -, hholds⟩ := runIn_materialize_memory hd hv
  have hkeeps := Tree.keepsIf_outer hstyle
  rw [Tree.element] at hholds hkeeps
  exact ⟨_, e, w', _, Operation.render_of_shows hv, hmake, Operation.runIn_outerHtml hholds,
    hkeeps.length_le, hkeeps.eq_iff⟩

open World in
/-- A void node below another one that has an empty text below it makes the text shorter. -/
theorem outerHtml_le_render_below : ∃ w text e w' text',
    w = ofObjects #[.memoryDocument [], .list [], .map [], .map [], .list [.text ""],
      .node ⟨.text "br", .bool true, .none, .ref 1, .none, .ref 2, .ref 3, .none, .ref 4⟩,
      .map [(.text "hidden", .bool true)], .list [.ref 5, .text "<"],
      .node ⟨.text "p", .bool false, .text "a", .ref 1, .none, .ref 2, .ref 6, .text "", .ref 7⟩] ∧
    (Operation.render (.ref 8)).runIn w = (.ok text, w) ∧
    (Operation.materialize (.ref 8) (.ref 0)).runIn w = (.ok e, w') ∧
    (Operation.outerHtml e).runIn w' = (.ok (.text text'), w') ∧
    text'.length ≤ text.length ∧ text' ≠ text := by
  have hv : ((ofObjects #[.memoryDocument [], .list [], .map [], .map [], .list [.text ""],
      .node ⟨.text "br", .bool true, .none, .ref 1, .none, .ref 2, .ref 3, .none, .ref 4⟩,
      .map [(.text "hidden", .bool true)], .list [.ref 5, .text "<"],
      .node ⟨.text "p", .bool false, .text "a", .ref 1, .none, .ref 2, .ref 6, .text "",
        .ref 7⟩]).read (.ref 8)).Shows
      (.node { Head.bare "p" false with
          id := some "a", attrs := [("hidden", .flag true)], attrs_nodup := by simp [Entries.keys],
          content := some "" }
        [.node (Head.bare "br" true) [.text ""], .text "<"]) :=
    .node ⟨rfl, rfl, rfl, ⟨_, rfl⟩, rfl, ⟨_, _, rfl, .nil⟩, ⟨_, rfl⟩, rfl⟩ rfl
      (.cons (.node ⟨rfl, rfl, rfl, ⟨_, rfl⟩, rfl, ⟨_, _, rfl, .nil⟩, ⟨_, rfl⟩, rfl⟩ rfl
        (.cons (.text "") .nil)) (.cons (.text "<") .nil))
  obtain ⟨text, e, w', text', hrender, hmake, houter, hle, hiff⟩ :=
    outerHtml_le_render (d := 0) rfl hv (by simp [Head.bare, Entries.keys])
  refine ⟨_, text, e, w', text', rfl, hrender, hmake, houter, hle, fun heq => ?_⟩
  have hbelow : (Head.bare "br" true, [Tree.text ""]) ∈ (Tree.node { Head.bare "p" false with
      id := some "a", attrs := [("hidden", .flag true)], attrs_nodup := by simp [Entries.keys],
      content := some "" } [.node (Head.bare "br" true) [.text ""], .text "<"]).nodes := by
    simp
  exact hiff.mp heq _ hbelow (.inr (.inr ⟨rfl, rfl, by simp, by simp⟩))

end Markup
