import Markup.Attributes
import Markup.Store
import Mathlib.Data.List.Forall2

/-!
# Well-typed trees

A node can be made with any values in its fields.  A `Tree` is what a node is whose fields have
the types that they are meant to have: a `Head` for the fields other than the children, and for
children texts or such nodes.  A tree says nothing of which objects are the same, so a node that
occurs several times is a subtree each time.

`Term.Shows` relates a value unfolded to the tree that it shows.  All that is said of well-typed
nodes is said of trees, under the hypothesis that a value of a world shows one.
-/

namespace Markup

/-- What a well-typed node holds beside its children.  A map has each of its keys once. -/
structure Head where
  name : String
  isVoid : Bool
  id : Option String
  classes : List String
  style : Option Style
  listeners : Entries String (List Value)
  attrs : Entries String AttributeValue
  content : Option String
  style_nodup : ∀ s ∈ style, (Entries.keys s).Nodup
  listeners_nodup : (Entries.keys listeners).Nodup
  attrs_nodup : (Entries.keys attrs).Nodup

/-- A node with nothing but a name. -/
def Head.bare (name : String) (isVoid : Bool) : Head where
  name := name
  isVoid := isVoid
  id := none
  classes := []
  style := none
  listeners := []
  attrs := []
  content := none
  style_nodup := by simp
  listeners_nodup := .nil
  attrs_nodup := .nil

/-- The text of a node before its children. -/
def Head.text (h : Head) : String := h.content.getD ""

/-- A well-typed node with all that is below it, or a text. -/
inductive Tree where
  | text (s : String)
  | node (h : Head) (children : List Tree)

namespace Tree

/-- Trees are gone through with the children of a node as a whole. -/
@[elab_as_elim, induction_eliminator]
theorem ind {p : Tree → Prop} (text : ∀ s, p (.text s))
    (node : ∀ h children, (∀ c ∈ children, p c) → p (.node h children)) (t : Tree) : p t := by
  refine t.rec (motive_2 := fun children => ∀ c ∈ children, p c) text node ?_ ?_
  · intro c hc
    cases hc
  · intro t ts ht hts c hc
    rcases List.mem_cons.mp hc with rfl | hc
    · exact ht
    · exact hts c hc

mutual

/-- The nodes of a tree in document order, each with its children. -/
def nodes : Tree → List (Head × List Tree)
  | .text _ => []
  | .node h children => (h, children) :: nodesOf children

/-- The nodes of some trees in document order. -/
def nodesOf : List Tree → List (Head × List Tree)
  | [] => []
  | t :: ts => t.nodes ++ nodesOf ts

end

@[simp] theorem nodesOf_eq (ts : List Tree) : nodesOf ts = ts.flatMap nodes := by
  induction ts with
  | nil => rfl
  | cons t ts ih => rw [nodesOf, ih, List.flatMap_cons]

@[simp] theorem nodes_text (s : String) : (Tree.text s).nodes = [] := rfl

@[simp] theorem nodes_node (h : Head) (children : List Tree) :
    (Tree.node h children).nodes = (h, children) :: children.flatMap nodes := by
  rw [nodes, nodesOf_eq]

mutual

/-- How many nodes lie below one another at most. -/
def height : Tree → Nat
  | .text _ => 0
  | .node _ children => heightOf children + 1

/-- The greatest height of some trees. -/
def heightOf : List Tree → Nat
  | [] => 0
  | t :: ts => max t.height (heightOf ts)

end

theorem height_le_heightOf {t : Tree} {ts : List Tree} (h : t ∈ ts) :
    t.height ≤ heightOf ts := by
  induction ts with
  | nil => cases h
  | cons u us ih =>
    rw [heightOf]
    rcases List.mem_cons.mp h with rfl | h
    · exact Nat.le_max_left _ _
    · exact Nat.le_trans (ih h) (Nat.le_max_right _ _)

end Tree

/-! ## What a value shows -/

/-- A text that may be missing. -/
def Term.ofText? : Option String → Term
  | .none => .none
  | some s => .text s

/-- The entries of a map from texts to texts. -/
def Style.terms (s : Style) : List (Term × Term) := s.map fun e => (.text e.1, .text e.2)

namespace Term

/-- The term is the list of the given values. -/
def Lists (t : Term) (vs : List Value) : Prop :=
  ∃ id items, t = .list id items ∧ items.map toValue = vs

/-- The term is the given style, or missing. -/
def ShowsStyle (t : Term) : Option Style → Prop
  | .none => t = .none
  | some s => ∃ id, t = .map id s.terms

/-- The term is a map from the given events to lists of the given listeners. -/
def ShowsListeners (t : Term) (listeners : Entries String (List Value)) : Prop :=
  ∃ id rows, t = .map id rows ∧
    List.Forall₂ (fun row l => row.1 = .text l.1 ∧ row.2.Lists l.2) rows listeners

end Term

/-- A node has the fields that a head says. -/
structure Node.Shows (n : Node Term) (h : Head) : Prop where
  name : n.name = .text h.name
  isVoid : n.isVoid = .atom (.bool h.isVoid)
  id : n.id = .ofText? h.id
  classes : ∃ id, n.classes = .list id (h.classes.map .text)
  style : n.style.ShowsStyle h.style
  listeners : n.listeners.ShowsListeners h.listeners
  attrs : ∃ id, n.attrs = .map id (h.attrs.map fun e => (.text e.1, .atom e.2.toAtom))
  content : n.content = .ofText? h.content

/-- A term is a well-typed node or a text, and this is the tree of it. -/
inductive Term.Shows : Term → Tree → Prop
  | text (s : String) : Shows (.text s) (.text s)
  | node {id : Nat} {n : Node Term} {h : Head} {list : Nat} {items : List Term}
      {children : List Tree} (fields : n.Shows h) (holder : n.children = .list list items)
      (below : List.Forall₂ Shows items children) : Shows (.node id n) (.node h children)

/-- A world with some objects and nothing else. -/
def World.ofObjects (objects : Array (Object Value)) : World :=
  ⟨objects, none, false, none, #[], .absent, []⟩

/-- What holds of pairs for each second item holds of all pairs. -/
theorem forall₂_imp_of_mem {α β : Type} {R S : α → β → Prop} {items : List α} {others : List β}
    (h : List.Forall₂ R items others) (himp : ∀ b ∈ others, ∀ a, R a b → S a b) :
    List.Forall₂ S items others := by
  induction h with
  | nil => exact .nil
  | cons hab _ ih =>
    exact .cons (himp _ List.mem_cons_self _ hab)
      (ih fun b hb => himp b (List.mem_cons_of_mem _ hb))

/-- What corresponds to the same things in order corresponds to one another. -/
theorem forall₂_join {α β γ : Type} {R : α → γ → Prop} {R' : β → γ → Prop} {S : α → β → Prop}
    {as : List α} {bs : List β} {cs : List γ} (h : List.Forall₂ R as cs)
    (h' : List.Forall₂ R' bs cs)
    (hjoin : ∀ a ∈ as, ∀ b, ∀ c ∈ cs, R a c → R' b c → S a b) : List.Forall₂ S as bs := by
  induction h generalizing bs with
  | nil =>
    cases h'
    exact .nil
  | cons hac _ ih =>
    cases h' with
    | cons hbc hrest =>
      refine .cons (hjoin _ List.mem_cons_self _ _ List.mem_cons_self hac hbc) (ih hrest ?_)
      exact fun a ha b c hc => hjoin a (List.mem_cons_of_mem _ ha) b c (List.mem_cons_of_mem _ hc)

/-- What shows a node is one. -/
theorem Term.Shows.exists_node {t : Term} {h : Head} {children : List Tree}
    (s : t.Shows (.node h children)) : ∃ id n list items, t = .node id n ∧ n.Shows h ∧
      n.children = .list list items ∧ List.Forall₂ Term.Shows items children := by
  cases s with
  | node fields holder below => exact ⟨_, _, _, _, rfl, fields, holder, below⟩

end Markup
