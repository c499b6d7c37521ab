import Markup.Proofs.Computation
import Markup.Proofs.Tree
import Markup.Rendering

/-!
# What a tree is written as

`Tree.html` writes a tree, which always succeeds, and `Operation.render` writes every value that
shows a tree in the same way (`render_of_shows`).  The pairs that an opening tag shows are
`Head.pairs`: the id if there is one, the classes if there are any, the style if there is one, and
the plain attributes after the boolean rule.
-/

namespace Markup

/-- The text that is shown for the value of a plain attribute, if it is shown. -/
def AttributeValue.shown? (key : String) : AttributeValue → Option String
  | .none => some "none"
  | .flag true => some (if Vocabulary.isBooleanAttribute key then key else "true")
  | .flag false => if Vocabulary.isBooleanAttribute key then Option.none else some "false"
  | .text s => some s

namespace Head

/-- The plain attributes that are shown. -/
def shownAttrs (h : Head) : List (String × String) :=
  h.attrs.filterMap fun e => (e.2.shown? e.1).map (e.1, ·)

/-- The attributes that are shown keep their order. -/
theorem keys_shownAttrs (h : Head) :
    (Entries.keys h.shownAttrs).Sublist (Entries.keys h.attrs) := by
  rw [shownAttrs]
  induction h.attrs with
  | nil => exact .slnil
  | cons a attrs ih =>
    rw [List.filterMap_cons]
    cases a.2.shown? a.1 with
    | none => exact ih.cons a.1
    | some s => exact ih.cons_cons a.1

/-- The classes, joined by spaces. -/
def className (h : Head) : String := " ".intercalate h.classes

/-- The pairs before the plain attributes. -/
def ownPairs (h : Head) : List (String × String) :=
  (h.id.map ("id", ·)).toList ++ (if h.classes.isEmpty then [] else [("class", h.className)]) ++
    (h.style.map fun s => ("style", s.write)).toList

/-- The pairs that the opening tag shows, in order. -/
def pairs (h : Head) : List (String × String) := h.ownPairs ++ h.shownAttrs

/-- Whether the opening tag is all that is written. -/
def opensOnly (h : Head) (children : List Tree) : Bool :=
  h.isVoid && children.isEmpty && h.text == ""

end Head

namespace Tree

open Html (openingTag closingTag)

mutual

/-- The written form of a tree. -/
def html : Tree → String
  | .text s => Text.escape s
  | .node h children =>
    if h.opensOnly children then openingTag h.name h.pairs
    else openingTag h.name h.pairs ++ Text.escape h.text ++ htmlOf children ++ closingTag h.name

/-- The written forms of some trees, one after the other. -/
def htmlOf : List Tree → String
  | [] => ""
  | t :: ts => t.html ++ htmlOf ts

end

end Tree

/-! ## The shown pairs -/

namespace Html

theorem shownValue_attribute (key : String) (value : AttributeValue) :
    shownValue (.text key) (.atom value.toAtom) = .ok ((value.shown? key).map .text) := by
  have hkey : isBooleanKey (.text key) = .ok (Vocabulary.isBooleanAttribute key) := rfl
  unfold shownValue
  rw [hkey, ok_bind]
  cases value with
  | none => cases Vocabulary.isBooleanAttribute key <;> rfl
  | text s => cases Vocabulary.isBooleanAttribute key <;> rfl
  | flag b =>
    cases b <;> rw [AttributeValue.shown?] <;>
      cases Vocabulary.isBooleanAttribute key <;> rfl

theorem shownAttr_attribute (key : String) (value : AttributeValue) :
    shownAttr (.text key) (.atom value.toAtom) =
      .ok ((value.shown? key).map (key, ·)).toList := by
  rw [shownAttr, shownValue_attribute]
  cases value.shown? key <;> simp

theorem joinTexts_texts (ss : List String) :
    joinTexts (ss.map .text) = .ok (" ".intercalate ss) := by
  have h : textsOf (ss.map .text) = .ok ((ss.map Term.text).map fun t => t.text?.getD "") := by
    refine mapM_eq_ok fun t ht => ?_
    obtain ⟨s, _, rfl⟩ := List.mem_map.mp ht
    rfl
  rw [joinTexts, h, ok_bind, List.map_map]
  simp [Function.comp_def, Term.text?]

theorem styleText_terms (id : Nat) (s : Style) : styleText (.map id s.terms) = .ok s.write := by
  have h : s.terms.mapM (fun e => do
      let property ← e.1.plain
      return Style.writeEntry property (← e.2.plain) : Term × Term → Except Fault String) =
      .ok (s.terms.map fun e =>
        Style.writeEntry (e.1.text?.getD "") (e.2.text?.getD "")) := by
    refine mapM_eq_ok fun e he => ?_
    obtain ⟨d, _, rfl⟩ := List.mem_map.mp he
    simp [Term.text?]
  rw [styleText, Term.entries_map, ok_bind, h, ok_bind, Style.terms, List.map_map]
  rfl

variable {n : Node Term} {h : Head}

theorem shownId_of_shows (s : n.Shows h) :
    shownId n.id = .ok (h.id.map ("id", ·)).toList := by
  rw [s.id]
  cases h.id <;> rfl

theorem shownClasses_of_shows (s : n.Shows h) :
    shownClasses n.classes = .ok (if h.classes.isEmpty then [] else [("class", h.className)]) := by
  obtain ⟨id, hclasses⟩ := s.classes
  rw [hclasses, shownClasses]
  cases hc : h.classes with
  | nil => rfl
  | cons c cs =>
    have htrue : (Term.list id ((c :: cs).map .text)).truthy = true := rfl
    rw [if_pos htrue, joinClasses, joinTexts_texts, Head.className, hc]
    rfl

theorem shownStyle_of_shows (s : n.Shows h) :
    shownStyle n.style = .ok (h.style.map fun s => ("style", s.write)).toList := by
  have hstyle := s.style
  cases hs : h.style with
  | none =>
    rw [hs, Term.ShowsStyle] at hstyle
    rw [hstyle]
    rfl
  | some style =>
    rw [hs, Term.ShowsStyle] at hstyle
    obtain ⟨id, hstyle⟩ := hstyle
    rw [hstyle, shownStyle, styleText_terms]
    rfl

theorem shownAttrs_of_shows (s : n.Shows h) : shownAttrs n.attrs = .ok h.shownAttrs := by
  obtain ⟨id, hattrs⟩ := s.attrs
  have hmap : (h.attrs.map fun e => (Term.text e.1, Term.atom e.2.toAtom)).mapM
      (fun e => shownAttr e.1 e.2) =
      .ok (h.attrs.map fun e => ((e.2.shown? e.1).map (e.1, ·)).toList) := by
    rw [List.mapM_map]
    exact mapM_eq_ok fun e _ => shownAttr_attribute e.1 e.2
  rw [hattrs, shownAttrs, Term.entries_map, ok_bind, hmap, Head.shownAttrs,
    List.filterMap_eq_flatMap_toList]
  simp [List.flatMap]

theorem shownPairs_of_shows (s : n.Shows h) :
    shownPairs n.id n.classes n.style n.attrs = .ok h.pairs := by
  rw [shownPairs, shownId_of_shows s, shownClasses_of_shows s, shownStyle_of_shows s,
    shownAttrs_of_shows s]
  rfl

/-! ## The written form -/

theorem contentText_of_shows (s : n.Shows h) :
    contentText n.content = .ok (Text.escape h.text) := by
  rw [s.content, Head.text]
  cases h.content with
  | none => rfl
  | some c =>
    by_cases hc : c = ""
    · rw [hc]
      rfl
    · have htrue : (Term.text c).truthy = true := by simp [Term.truthy, Atom.truthy, hc]
      rw [Term.ofText?, contentText, if_pos htrue]
      rfl

theorem truthy_content_of_shows (s : n.Shows h) : n.content.truthy = !(h.text == "") := by
  rw [s.content, Head.text]
  cases h.content <;> rfl

end Html

open Html in
/-- What shows a tree is written as the tree is. -/
theorem renderChild_of_shows {t : Term} {tree : Tree} (s : t.Shows tree) :
    renderChild t = .ok tree.html := by
  induction tree generalizing t with
  | text x =>
    cases s
    rfl
  | node h children ih =>
    obtain ⟨id, n, list, items, rfl, fields, holder, below⟩ := s.exists_node
    have hitems : renderItems items = .ok (Tree.htmlOf children) := by
      clear holder s fields
      induction below with
      | nil => rfl
      | cons hc _ ihrest =>
        rw [renderItems, ih _ List.mem_cons_self hc, ok_bind,
          ihrest fun c hc => ih c (List.mem_cons_of_mem _ hc)]
        rfl
    have htruthy : n.children.truthy = !children.isEmpty := by
      rw [holder]
      cases below <;> rfl
    have hopens : (n.isVoid.truthy && !n.children.truthy && !n.content.truthy) =
        h.opensOnly children := by
      rw [htruthy, truthy_content_of_shows fields, fields.isVoid, Head.opensOnly]
      simp [Term.truthy, Atom.truthy]
    have hchildren : renderChildren n.children = .ok (Tree.htmlOf children) := by
      rw [holder, renderChildren, hitems]
    obtain ⟨name, isVoid, nodeId, classes, style, listeners, attrs, content, held⟩ := n
    rw [renderChild, renderNode, shownPairs_of_shows fields, contentText_of_shows fields,
      hchildren, hopens, show name = .text h.name from fields.name, Tree.html]
    by_cases ho : h.opensOnly children <;> simp [ho]

/-- Every value that shows a tree is written, as its tree is, and nothing changes. -/
theorem Operation.render_of_shows {w : World} {v : Value} {h : Head} {children : List Tree}
    (s : (w.read v).Shows (.node h children)) :
    (Operation.render v).runIn w = (.ok (Tree.node h children).html, w) := by
  have hchild := renderChild_of_shows s
  obtain ⟨id, n, list, items, hv, -, -, -⟩ := s.exists_node
  rw [hv] at hchild
  rw [Operation.render, runIn_bind_ok (Operation.runIn_read v w), hv]
  exact congrArg (·, w) hchild

end Markup
