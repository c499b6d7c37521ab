import Markup.Outline
import Markup.Proofs.Store
import Markup.Proofs.Tree.InWorld
import Markup.Proofs.Tree.Summary

/-!
# An outline line by line

An outline has a line for each tree that does not lie too deep.  `Tree.placed` lists all that lies
in a tree with its depth, in document order, and `Tree.outline` writes a line for each place that
the number of levels allows: the indentation, then the opening line or the summary of a node or a
quoted text, then the brackets of the nodes that end there.  Which nodes end is told by the depth
of what comes next.

The operation goes down the tree instead, with one level less and one step more for each node, and
puts each bracket behind all that lies in its node.  `Outline.writes_of_shows` relates the two: the
text for a tree at some depth, behind its newline, is that of its lines.  For a whole tree the
lines are cut apart again, since nothing that they show has a newline (`summarize_outline`).
-/

namespace Markup

open Text (OnOneLine quote onOneLine_quote)

/-! ## What lies in a tree -/

/-- A tree inside another one: how many nodes stand above it, and the tree itself. -/
structure Placed where
  depth : Nat
  tree : Tree

namespace Tree

mutual

/-- All that lies in a tree at some depth, in document order. -/
def placedAt (depth : Nat) : Tree → List Placed
  | .text s => [⟨depth, .text s⟩]
  | .node h children => ⟨depth, .node h children⟩ :: placedAllAt (depth + 1) children

/-- All that lies in some trees at the same depth. -/
def placedAllAt (depth : Nat) : List Tree → List Placed
  | [] => []
  | t :: ts => t.placedAt depth ++ placedAllAt depth ts

end

/-- All that lies in a tree, the tree itself first. -/
def placed (t : Tree) : List Placed := t.placedAt 0

variable {t : Tree} {ts : List Tree} {depth : Nat} {p : Placed}

theorem mem_placedAllAt : p ∈ placedAllAt depth ts ↔ ∃ t ∈ ts, p ∈ t.placedAt depth := by
  induction ts with
  | nil => simp [placedAllAt]
  | cons t ts ih => simp [placedAllAt, ih]

theorem mem_placedAt_node {h : Head} {children : List Tree} :
    p ∈ (Tree.node h children).placedAt depth ↔
      p = ⟨depth, .node h children⟩ ∨ ∃ c ∈ children, p ∈ c.placedAt (depth + 1) := by
  rw [placedAt, List.mem_cons, mem_placedAllAt]

theorem depth_le_of_mem_placedAt (hp : p ∈ t.placedAt depth) : depth ≤ p.depth := by
  induction t generalizing depth with
  | text s => simp_all [placedAt]
  | node h children ih =>
    rcases mem_placedAt_node.mp hp with rfl | ⟨c, hc, hp⟩
    · exact Nat.le_refl _
    · exact Nat.le_of_succ_le (ih c hc hp)

theorem Unbroken.of_mem_placedAt (ht : t.Unbroken) (hp : p ∈ t.placedAt depth) :
    p.tree.Unbroken := by
  induction t generalizing depth with
  | text s =>
    rw [placedAt, List.mem_singleton] at hp
    rwa [hp]
  | node h children ih =>
    rcases mem_placedAt_node.mp hp with rfl | ⟨c, hc, hp⟩
    · exact ht
    · exact ih c hc ((unbroken_node.mp ht).2 c hc) hp

end Tree

/-! ## The lines -/

namespace Placed

variable (levels : Int) (p : Placed)

/-- Whether it is a node that is placed there. -/
def IsNode : Prop := ∃ h children, p.tree = .node h children

/-- Whether an outline of so many levels has a line for it. -/
def IsShown : Prop := levels < 0 ∨ (p.depth : Int) ≤ levels

instance : Decidable (p.IsShown levels) :=
  inferInstanceAs (Decidable (levels < 0 ∨ (p.depth : Int) ≤ levels))

/-- What its line shows: a node on the last level by its summary. -/
def body : String :=
  match p.tree with
  | .text s => quote s
  | .node h children => if (p.depth : Int) = levels then h.summary children else h.opening

/-- How many nodes are open behind it, before any is closed. -/
def opened : Nat :=
  match p.tree with
  | .text _ => p.depth
  | .node .. => if (p.depth : Int) = levels then p.depth else p.depth + 1

theorem depth_le_opened : p.depth ≤ p.opened levels := by
  rw [opened]
  split
  · exact Nat.le_refl _
  · split_ifs <;> omega

/-- Everything but a node on the last level shows the same whatever the number of levels is. -/
theorem same_of_ne {levels' : Int} (h : p.IsNode → (p.depth : Int) ≠ levels)
    (h' : p.IsNode → (p.depth : Int) ≠ levels') :
    p.body levels = p.body levels' ∧ p.opened levels = p.opened levels' := by
  obtain ⟨depth, tree⟩ := p
  cases tree with
  | text s => simp [body, opened]
  | node head children =>
    have hdepth : (depth : Int) ≠ levels := h ⟨head, children, rfl⟩
    have hdepth' : (depth : Int) ≠ levels' := h' ⟨head, children, rfl⟩
    simp [body, opened, hdepth, hdepth']

end Placed

namespace Outline

/-- The spaces before what lies at a depth: none before the root. -/
def spaces (indent : Int) (depth : Nat) : String :=
  String.ofList (List.replicate (if depth = 0 then 0 else 2 * (indent.toNat + depth)) ' ')

/-- The brackets of so many nodes. -/
def closers (n : Nat) : String := String.ofList (List.replicate n '>')

/-- The depth of the first of some places, or of what comes after them. -/
def startOf (next : Nat) (ps : List Placed) : Nat := (ps.head?.map Placed.depth).getD next

/-- A line for each place.  What comes after them lies at the depth `next`. -/
def linesBefore (levels indent : Int) (next : Nat) : List Placed → List String
  | [] => []
  | p :: ps =>
    (spaces indent p.depth ++ p.body levels ++ closers (p.opened levels - startOf next ps)) ::
      linesBefore levels indent next ps

/-- The places that an outline has lines for. -/
def shownOf (levels : Int) (ps : List Placed) : List Placed := ps.filter (·.IsShown levels)

end Outline

/-- The lines of the outline of a tree. -/
def Tree.outline (levels indent : Int) (t : Tree) : List String :=
  Outline.linesBefore levels indent 0 (Outline.shownOf levels t.placed)

namespace Outline

variable {levels indent : Int} {next depth : Nat} {ps qs : List Placed} {h : Head}
  {children : List Tree}

theorem onOneLine_linesBefore (hbody : ∀ p ∈ ps, OnOneLine (p.body levels)) :
    ∀ l ∈ linesBefore levels indent next ps, OnOneLine l := by
  have hspaces : ∀ depth, OnOneLine (spaces indent depth) := fun depth =>
    Text.onOneLine_replicate _ (by decide)
  have hclosers : ∀ n, OnOneLine (closers n) := fun n => Text.onOneLine_replicate n (by decide)
  induction ps with
  | nil => simp [linesBefore]
  | cons p ps ih =>
    obtain ⟨hp, hrest⟩ := List.forall_mem_cons.mp hbody
    rw [linesBefore, List.forall_mem_cons]
    exact ⟨by simp [hspaces, hclosers, hp], ih hrest⟩

theorem linesBefore_congr {levels' : Int}
    (hsame : ∀ p ∈ ps, p.body levels = p.body levels' ∧ p.opened levels = p.opened levels') :
    linesBefore levels indent next ps = linesBefore levels' indent next ps := by
  induction ps with
  | nil => simp [linesBefore]
  | cons p ps ih =>
    obtain ⟨hp, hrest⟩ := List.forall_mem_cons.mp hsame
    simp [linesBefore, hp, ih hrest]

/-! ## The lines as a text -/

/-- Some lines, each after a newline. -/
def broken (ls : List String) : String := String.join (ls.map ("\n" ++ ·))

@[simp] theorem broken_nil : broken [] = "" := by simp [broken]

@[simp] theorem broken_cons (l : String) (ls : List String) :
    broken (l :: ls) = "\n" ++ l ++ broken ls := by simp [broken]

@[simp] theorem broken_append (ls ls' : List String) :
    broken (ls ++ ls') = broken ls ++ broken ls' := by simp [broken]

theorem broken_eq_intercalate (l : String) (ls : List String) :
    broken (l :: ls) = "\n" ++ "\n".intercalate (l :: ls) := by
  induction ls generalizing l with
  | nil => simp
  | cons l' ls ih =>
    rw [broken_cons, ih, String.intercalate_cons_cons]
    simp [String.append_assoc]

theorem startOf_append (ps qs : List Placed) :
    startOf next (ps ++ qs) = startOf (startOf next qs) ps := by
  cases ps <;> simp [startOf]

theorem linesBefore_append (ps qs : List Placed) :
    linesBefore levels indent next (ps ++ qs) =
      linesBefore levels indent (startOf next qs) ps ++ linesBefore levels indent next qs := by
  induction ps with
  | nil => simp [linesBefore]
  | cons p ps ih => simp [linesBefore, ih, startOf_append]

theorem closers_succ (n : Nat) : closers (n + 1) = closers n ++ ">" := by
  rw [← String.toList_inj]
  simp [closers, List.replicate_succ']

/-- If what comes next lies one step less deep, one node more ends with the last line. -/
theorem broken_linesBefore (hne : ps ≠ []) (hopen : ∀ p ∈ ps, depth < p.opened levels) :
    broken (linesBefore levels indent depth ps) =
      broken (linesBefore levels indent (depth + 1) ps) ++ ">" := by
  induction ps with
  | nil => exact absurd rfl hne
  | cons p ps ih =>
    obtain ⟨hp, hrest⟩ := List.forall_mem_cons.mp hopen
    cases ps with
    | nil =>
      have hclosers : p.opened levels - depth = p.opened levels - (depth + 1) + 1 := by omega
      simp [linesBefore, startOf, hclosers, closers_succ, String.append_assoc]
    | cons q qs =>
      show broken (_ :: linesBefore levels indent depth (q :: qs)) =
        broken (_ :: linesBefore levels indent (depth + 1) (q :: qs)) ++ ">"
      rw [broken_cons, broken_cons, ih (by simp) hrest]
      simp [startOf, String.append_assoc]

/-! ## The lines for a node -/

@[simp] theorem shownOf_append (levels : Int) (ps qs : List Placed) :
    shownOf levels (ps ++ qs) = shownOf levels ps ++ shownOf levels qs := by simp [shownOf]

/-- Trees on a level that is shown start at its depth. -/
theorem startOf_shown (hshown : levels < 0 ∨ (depth : Int) ≤ levels) (ts : List Tree) :
    startOf depth (shownOf levels (Tree.placedAllAt depth ts)) = depth := by
  cases ts with
  | nil => simp [Tree.placedAllAt, startOf, shownOf]
  | cons t ts =>
    cases t <;>
      simp [Tree.placedAllAt, Tree.placedAt, startOf, shownOf, Placed.IsShown, hshown]

theorem shownOf_node (hshown : levels < 0 ∨ (depth : Int) ≤ levels) :
    shownOf levels ((Tree.node h children).placedAt depth) =
      ⟨depth, .node h children⟩ :: shownOf levels (Tree.placedAllAt (depth + 1) children) := by
  simp [shownOf, Tree.placedAt, Placed.IsShown, hshown]

/-- Below the last level nothing is shown. -/
theorem shownOf_below (hlast : (depth : Int) = levels) (ts : List Tree) :
    shownOf levels (Tree.placedAllAt (depth + 1) ts) = [] := by
  rw [shownOf, List.filter_eq_nil_iff]
  intro p hp
  obtain ⟨t, -, hp⟩ := Tree.mem_placedAllAt.mp hp
  have hdeep := Tree.depth_le_of_mem_placedAt hp
  rw [decide_eq_true_eq, Placed.IsShown]
  omega

/-- A node on the last level has one line. -/
theorem broken_node_of_last (hlast : (depth : Int) = levels) :
    broken (linesBefore levels indent depth
        (shownOf levels ((Tree.node h children).placedAt depth))) =
      "\n" ++ spaces indent depth ++ h.summary children := by
  rw [shownOf_node (.inr (Int.le_of_eq hlast)), shownOf_below hlast]
  simp [linesBefore, startOf, Placed.body, Placed.opened, hlast, closers, String.append_assoc]

/-- A node above the last level has its opening line, then the lines for what lies in it. -/
theorem broken_node_of_ne (hshown : levels < 0 ∨ (depth : Int) ≤ levels)
    (hlast : (depth : Int) ≠ levels) :
    broken (linesBefore levels indent depth
        (shownOf levels ((Tree.node h children).placedAt depth))) =
      "\n" ++ spaces indent depth ++ (h.opening ++ broken (linesBefore levels indent (depth + 1)
        (shownOf levels (Tree.placedAllAt (depth + 1) children))) ++ ">") := by
  have hopen : ∀ p ∈ (⟨depth, .node h children⟩ ::
      shownOf levels (Tree.placedAllAt (depth + 1) children) : List Placed),
      depth < p.opened levels := by
    rw [List.forall_mem_cons]
    refine ⟨by simp [Placed.opened, hlast], fun p hp => ?_⟩
    obtain ⟨c, -, hp⟩ := Tree.mem_placedAllAt.mp (List.mem_of_mem_filter hp)
    exact Nat.lt_of_lt_of_le (Tree.depth_le_of_mem_placedAt hp) (p.depth_le_opened levels)
  rw [shownOf_node hshown, broken_linesBefore (by simp) hopen, linesBefore, broken_cons,
    startOf_shown (by omega)]
  simp [Placed.body, Placed.opened, hlast, closers, String.append_assoc]

/-! ## What is written is the lines -/

theorem lineBreak_eq (indent : Int) (depth : Nat) :
    lineBreak (indent.toNat + (depth + 1)) = "\n" ++ spaces indent (depth + 1) := by
  simp [lineBreak, spaces]

/-- What an outline says of an item: the outline of a node, or a quoted text. -/
def writeItem (levels : Option Int) (steps : Nat) (t : Term) : Except Fault String :=
  if t.node?.isSome then writeNode levels steps t else t.quoted

/-- What is written for a term at some depth is the text of the lines for a tree. -/
def Writes (levels indent : Int) (depth : Nat) (t : Term) (tree : Tree) : Prop :=
  ∃ s, writeItem (some (levels - depth)) (indent.toNat + depth) t = .ok s ∧
    broken (linesBefore levels indent depth (shownOf levels (tree.placedAt depth))) =
      "\n" ++ spaces indent depth ++ s

/-- If there is a level below, the items on it are written one after the other. -/
theorem writeItems_of_writes {items : List Term}
    (hshown : levels < 0 ∨ ((depth + 1 : Nat) : Int) ≤ levels)
    (below : List.Forall₂ (Writes levels indent (depth + 1)) items children) :
    writeItems (some (levels - depth)) (indent.toNat + (depth + 1)) items =
      .ok (broken (linesBefore levels indent (depth + 1)
        (shownOf levels (Tree.placedAllAt (depth + 1) children)))) := by
  induction below with
  | nil => simp [writeItems, Tree.placedAllAt, shownOf, linesBefore]
  | @cons t c items children ht _ ih =>
    obtain ⟨s, hs, hlines⟩ := ht
    have hlevel : levels - ((depth + 1 : Nat) : Int) = levels - depth - 1 := by omega
    rw [writeItem, hlevel] at hs
    rw [Tree.placedAllAt, shownOf_append, linesBefore_append, startOf_shown hshown,
      broken_append, hlines, ← lineBreak_eq, writeItems, ih]
    split at hs <;> simp [below, *]

/-- The depth grows as the number of levels falls, so each item is written as its lines say. -/
theorem writes_of_shows {t : Term} {tree : Tree} (s : t.Shows tree)
    (hshown : levels < 0 ∨ (depth : Int) ≤ levels) : Writes levels indent depth t tree := by
  induction tree generalizing t depth with
  | text x =>
    cases s
    have hquoted : (Term.text x).quoted = .ok (quote x) := by
      simp [Term.quoted, Term.display, Atom.display]
    refine ⟨quote x, by simp [writeItem, Term.node?, hquoted], ?_⟩
    simp [Tree.placedAt, shownOf, Placed.IsShown, hshown, linesBefore, startOf, Placed.body,
      Placed.opened, closers, String.append_assoc]
  | node h children ih =>
    obtain ⟨id, n, list, items, rfl, fields, holder, below⟩ := s.exists_node
    by_cases hlast : (depth : Int) = levels
    · refine ⟨h.summary children, ?_, broken_node_of_last hlast⟩
      simp [writeItem, Term.node?, writeNode, hlast, Term.plain_of_shows s]
    · refine ⟨_, ?_, broken_node_of_ne hshown hlast⟩
      have hdeeper : levels < 0 ∨ ((depth + 1 : Nat) : Int) ≤ levels := by omega
      have hlevel : levels - (depth : Int) ≠ 0 := by omega
      have hline := Term.nodeLine_opening fields
      have hitems := writeItems_of_writes hdeeper
        (forall₂_imp_of_mem below fun c hc t ht => ih c hc ht hdeeper)
      obtain ⟨name, isVoid, nodeId, classes, style, listeners, attrs, content, held⟩ := n
      dsimp only at holder
      subst holder
      simp [writeItem, Term.node?, writeNode, writeFields, writeChildren, hlevel, hline,
        Nat.add_assoc, hitems]

theorem outline_node (levels indent : Int) (h : Head) (children : List Tree) :
    ∃ l ls, (Tree.node h children).outline levels indent = l :: ls := by
  rw [Tree.outline, Tree.placed, shownOf_node (by omega), linesBefore]
  exact ⟨_, _, rfl⟩

/-- The root stands at depth zero, where a line has no spaces and every outline shows it. -/
theorem write_of_shows {t : Term} (s : t.Shows (.node h children)) (levels indent : Int) :
    write (some levels) indent t =
      .ok ("\n".intercalate ((Tree.node h children).outline levels indent)) := by
  have hshown : levels < 0 ∨ ((0 : Nat) : Int) ≤ levels := by omega
  obtain ⟨x, hx, hlines⟩ : Writes levels indent 0 t (.node h children) :=
    writes_of_shows s hshown
  obtain ⟨l, ls, houtline⟩ := outline_node levels indent h children
  obtain ⟨id, n, list, items, rfl, -, -, -⟩ := s.exists_node
  rw [← Tree.placed, ← Tree.outline, houtline, broken_eq_intercalate] at hlines
  have htext : "\n".intercalate (l :: ls) = x := by simpa [spaces] using hlines
  rw [houtline, htext]
  simpa [writeItem, Term.node?, write] using hx

/-! ## Indentations -/

/--
There is room for lines that are indented so far: it is no further than to the limit, and the
columns can be counted.
-/
structure HasRoom (limit indent : Int) : Prop where
  low : -(Term.countLimit : Int) - 1 ≤ indent
  countable : 2 * indent ≤ Term.countLimit
  le_limit : indent ≤ limit

theorem stepsOf_int {limit : Int} (hroom : HasRoom limit indent) :
    stepsOf limit (.atom (.int indent)) = .ok indent := by
  obtain ⟨hlow, hcountable, hlimit⟩ := hroom
  have hsmall :
      ¬(indent < -(Term.countLimit : Int) - 1 ∨ (Term.countLimit : Int) < 2 * indent) := by
    omega
  have hfits : ¬limit < indent := by omega
  simp [stepsOf, Term.toInt?, Atom.toInt?, hsmall, hfits]

end Outline

/-! ## The outline of a tree -/

namespace Tree

variable {h : Head} {children : List Tree} {levels indent : Int} {depth : Nat} {t : Tree}
  {p : Placed}

/-- Whatever is placed in an unbroken tree is shown on one line. -/
theorem Unbroken.onOneLine_body (ht : t.Unbroken) (hp : p ∈ t.placedAt depth) (levels : Int) :
    OnOneLine (p.body levels) := by
  have htree := ht.of_mem_placedAt hp
  obtain ⟨place, tree⟩ := p
  cases tree with
  | text s => exact onOneLine_quote s
  | node h children =>
    rw [Placed.body]
    dsimp only
    split_ifs
    · exact htree.onOneLine_summary
    · exact (unbroken_node.mp htree).1.onOneLine_opening

theorem Unbroken.lines_outline (ht : (Tree.node h children).Unbroken) (levels indent : Int) :
    Text.lines ("\n".intercalate ((Tree.node h children).outline levels indent)) =
      (Tree.node h children).outline levels indent := by
  obtain ⟨l, ls, houtline⟩ := Outline.outline_node levels indent h children
  refine Text.lines_intercalate (by simp [houtline]) (Outline.onOneLine_linesBefore ?_)
  exact fun p hp => ht.onOneLine_body (List.mem_of_mem_filter hp) levels

/-- Above what does not stand at the top there is a node, one step less deep. -/
theorem exists_node_above (hp : p ∈ t.placedAt depth) :
    p.depth = depth ∨ ∃ q ∈ t.placedAt depth, q.IsNode ∧ p.depth = q.depth + 1 := by
  induction t generalizing depth with
  | text s => simp_all [placedAt]
  | node h children ih =>
    rcases mem_placedAt_node.mp hp with rfl | ⟨c, hc, hp⟩
    · exact .inl rfl
    right
    rcases ih c hc hp with htop | ⟨q, hq, hnode, hdepth⟩
    · exact ⟨_, mem_placedAt_node.mpr (.inl rfl), ⟨h, children, rfl⟩, htop⟩
    · exact ⟨q, mem_placedAt_node.mpr (.inr ⟨c, hc, hq⟩), hnode, hdepth⟩

/-- Levels that reach below the deepest node are as good as levels that never run out. -/
theorem outline_eq_of_lt (hdeep : ∀ p ∈ (Tree.node h children).placed, p.IsNode →
    (p.depth : Int) < levels) {levels' : Int} (hendless : levels' < 0) :
    (Tree.node h children).outline levels indent =
      (Tree.node h children).outline levels' indent := by
  have hroot := hdeep _ (mem_placedAt_node.mpr (.inl rfl)) ⟨h, children, rfl⟩
  have hshown : ∀ p ∈ (Tree.node h children).placed, (p.depth : Int) ≤ levels := by
    intro p hp
    rcases exists_node_above hp with htop | ⟨q, hq, hnode, hdepth⟩
    · rw [htop]
      exact Int.le_of_lt hroot
    · have hq := hdeep q hq hnode
      omega
  have hall : Outline.shownOf levels (Tree.node h children).placed =
      (Tree.node h children).placed :=
    List.filter_eq_self.mpr fun p hp => by simp [Placed.IsShown, hshown p hp]
  have hall' : Outline.shownOf levels' (Tree.node h children).placed =
      (Tree.node h children).placed :=
    List.filter_eq_self.mpr fun p hp => by simp [Placed.IsShown, hendless]
  rw [outline, outline, hall, hall']
  refine Outline.linesBefore_congr fun p hp => p.same_of_ne levels ?_ ?_
  · exact fun hnode => Int.ne_of_lt (hdeep p hp hnode)
  · omega

end Tree

namespace Operation

variable {w : World} {v : Value} {h : Head} {children : List Tree} {limit indent : Int}

theorem runIn_summarize (hv : (w.read v).Shows (.node h children))
    (hroom : Outline.HasRoom limit indent) (levels : Int) :
    (summarize limit v (.int levels) (.int indent)).runIn w =
      (.ok (.text ("\n".intercalate ((Tree.node h children).outline levels indent))), w) := by
  have hwrite : Outline.writeTerm limit (w.read v) (w.read (.int levels)) (w.read (.int indent)) =
      .ok ("\n".intercalate ((Tree.node h children).outline levels indent)) := by
    have hlevels : w.read (.int levels) = .atom (.int levels) := by simp [World.read]
    have hindent : w.read (.int indent) = .atom (.int indent) := by simp [World.read]
    rw [Outline.writeTerm, hlevels, hindent, Outline.stepsOf_int hroom]
    exact Outline.write_of_shows hv levels indent
  cases World.Shows.of_unfold hv with
  | node object fields holder below =>
    rw [summarize, runIn_request object rfl rfl, runIn_bind_ok (runIn_read _ w),
      runIn_bind_ok (runIn_read _ w), runIn_bind_ok (runIn_read _ w), hwrite]
    rfl

/--
If there is room for the indentation, a well-typed node has an outline.  Where no name, event or
attribute has a newline, its lines are those of the tree, one for each place that the levels allow.
Levels that reach below the deepest node give the same outline as all negative ones.
-/
theorem summarize_outline (hv : (w.read v).Shows (.node h children))
    (hroom : Outline.HasRoom limit indent) (levels : Int) :
    ∃ s, (summarize limit v (.int levels) (.int indent)).runIn w = (.ok (.text s), w) ∧
      ((Tree.node h children).Unbroken →
        Text.lines s = (Tree.node h children).outline levels indent) ∧
      ((∀ p ∈ (Tree.node h children).placed, p.IsNode → (p.depth : Int) < levels) →
        ∀ levels' < 0,
          (summarize limit v (.int levels') (.int indent)).runIn w = (.ok (.text s), w)) := by
  refine ⟨_, runIn_summarize hv hroom levels, fun ht => ht.lines_outline levels indent, ?_⟩
  intro hdeep levels' hendless
  rw [Tree.outline_eq_of_lt hdeep hendless]
  exact runIn_summarize hv hroom levels'

/-- A list with a text of two lines and an item, whose id has a newline, too. -/
def outlinedWorld : World := .ofObjects #[.list [], .map [], .list [.text "z"],
  .node ⟨.text "li", .bool false, .none, .ref 0, .none, .ref 1, .ref 1, .none, .ref 2⟩,
  .list [.text "x\ny", .ref 3],
  .node ⟨.text "ul", .bool false, .text "a\nb", .ref 0, .none, .ref 1, .ref 1, .none, .ref 4⟩]

/-- The head of the list. -/
def outlinedHead : Head := { Head.bare "ul" false with id := some "a\nb" }

/-- What is in the list. -/
def outlinedChildren : List Tree := [.text "x\ny", .node (Head.bare "li" false) [.text "z"]]

theorem shows_outlined :
    (outlinedWorld.read (.ref 5)).Shows (.node outlinedHead outlinedChildren) :=
  .node ⟨rfl, rfl, rfl, ⟨_, rfl⟩, rfl, ⟨_, _, rfl, .nil⟩, ⟨_, rfl⟩, rfl⟩ rfl
    (.cons (.text _) (.cons (.node
      ⟨rfl, rfl, rfl, ⟨_, rfl⟩, rfl, ⟨_, _, rfl, .nil⟩, ⟨_, rfl⟩, rfl⟩ rfl
      (.cons (.text _) .nil)) .nil))

theorem unbroken_outlined : (Tree.node outlinedHead outlinedChildren).Unbroken := by
  have hbare : ∀ name, OnOneLine name → (Head.bare name false).Unbroken := fun name hname =>
    ⟨hname, by simp [Head.bare, Entries.keys], by simp [Head.bare, Entries.keys]⟩
  have hul : outlinedHead.Unbroken := ⟨by decide, by decide, by decide⟩
  simp [Tree.Unbroken, outlinedChildren, hul, hbare "li" (by decide)]

theorem summarize_outline_nested :
    (∃ s, (summarize 9 (.ref 5) (.int 1) (.int 1)).runIn outlinedWorld =
        (.ok (.text s), outlinedWorld) ∧
      Text.lines s = ["<ul: id='a\\nb'", "    'x\\ny'", "    <li: 'z'>>"]) ∧
    ∃ s, (summarize 9 (.ref 5) (.int 2) (.int (-3))).runIn outlinedWorld =
        (.ok (.text s), outlinedWorld) ∧
      (summarize 9 (.ref 5) (.int (-1)) (.int (-3))).runIn outlinedWorld =
        (.ok (.text s), outlinedWorld) ∧
      Text.lines s = ["<ul: id='a\\nb'", "  'x\\ny'", "  <li:", "    'z'>>"] := by
  have hdeep : ∀ p ∈ (Tree.node outlinedHead outlinedChildren).placed, p.IsNode →
      (p.depth : Int) < 2 := by
    simp [Tree.placed, Tree.placedAt, Tree.placedAllAt, outlinedChildren, Placed.IsNode]
  have hlines : (Tree.node outlinedHead outlinedChildren).outline 1 1 =
        ["<ul: id='a\\nb'", "    'x\\ny'", "    <li: 'z'>>"] ∧
      (Tree.node outlinedHead outlinedChildren).outline 2 (-3) =
        ["<ul: id='a\\nb'", "  'x\\ny'", "  <li:", "    'z'>>"] := by
    decide +kernel
  have hroom : Outline.HasRoom 9 1 := ⟨by decide, by decide, by decide⟩
  have hroom' : Outline.HasRoom 9 (-3) := ⟨by decide, by decide, by decide⟩
  obtain ⟨s, hrun, hs, -⟩ := summarize_outline shows_outlined hroom 1
  obtain ⟨t, hrun', ht, hendless⟩ := summarize_outline shows_outlined hroom' 2
  exact ⟨⟨s, hrun, (hs unbroken_outlined).trans hlines.1⟩, t, hrun',
    hendless hdeep (-1) (by decide), (ht unbroken_outlined).trans hlines.2⟩

/-- An indentation may be refused however it is meant: here it is too low to be counted with. -/
theorem not_summarize_every_indent :
    ¬ ∀ (limit : Int) (w : World) (v : Value) (h : Head) (children : List Tree)
      (levels indent : Int), (w.read v).Shows (.node h children) → (Tree.node h children).Unbroken →
      ∃ s, (summarize limit v (.int levels) (.int indent)).runIn w = (.ok (.text s), w) ∧
        Text.lines s = (Tree.node h children).outline levels indent := by
  intro hall
  obtain ⟨s, hrun, -⟩ := hall 9 _ _ _ _ 1 (-9223372036854775809) shows_outlined unbroken_outlined
  have hrefused : (summarize 9 (.ref 5) (.int 1) (.int (-9223372036854775809))).runIn
      outlinedWorld = (.error .tooLarge, outlinedWorld) := rfl
  rw [hrefused] at hrun
  cases hrun

end Operation

end Markup
