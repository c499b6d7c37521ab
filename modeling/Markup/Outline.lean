import Markup.Calling

/-!
# Outlines

`Outline.write` shows a tree over several lines, down to a number of levels: a node at the last
level is shown by its one-line summary, a node above it by its opening line and its children
below it, each two spaces further in, and texts as quoted texts.  The closing brackets stand at
the end of the last line of each node.  A negative number of levels never runs out, nor does one
that is not whole.  What is no number cannot be counted down, which matters as soon as there is a
node below.
-/

namespace Markup

namespace Outline

/-- A new line with an indentation of so many steps. -/
def lineBreak (steps : Nat) : String :=
  "\n" ++ String.ofList (List.replicate (2 * steps) ' ')

/-- A number of levels that never runs out. -/
def endless : Int := -1

/-- The levels that a value means, if it can be counted down. -/
def levelsOf? : Term → Option Int
  | .atom (.float x) =>
    match x.floor? with
    | some n => some (if x.eqInt n then n else endless)
    | none => some endless
  | .object _ .notANumber => some endless
  | t => t.toInt?

/-- The steps that a value means, if there is room for them, which there is up to a limit. -/
def stepsOf (limit : Int) (t : Term) : Except Fault Int :=
  match t.toInt? with
  | none => .error .unsuitable
  | some n =>
    if n < -(Term.countLimit : Int) - 1 ∨ (Term.countLimit : Int) < 2 * n then .error .tooLarge
    else if limit < n then .error .tooLong
    else .ok n

/-- One level less. -/
def below : Option Int → Except Fault (Option Int)
  | some n => .ok (some (n - 1))
  | none => .error .unsuitable

mutual

/-- The outline of a node whose own lines are indented by some steps. -/
def writeNode (levels : Option Int) (steps : Nat) : Term → Except Fault String
  | .node id n =>
    if levels = some 0 then Term.plain (.node id n)
    else writeFields levels (steps + 1) (Term.nodeLine [] true n) n
  | _ => .error .missingMember

/-- The opening line of a node, then its children. -/
def writeFields (levels : Option Int) (steps : Nat) (opening : Except Fault String) :
    Node Term → Except Fault String
  | ⟨_, _, _, _, _, _, _, _, children⟩ => do
    let head ← opening
    return head ++ (← writeChildren levels steps children) ++ ">"

/-- What holds the children, each item on a line of its own. -/
def writeChildren (levels : Option Int) (steps : Nat) : Term → Except Fault String
  | .list _ items => writeItems levels steps items
  | .tuple _ items => writeItems levels steps items
  | t => do
    let shown ← (← t.items).mapM Term.quoted
    return String.join (shown.map (lineBreak steps ++ ·))

/-- Some children, each on a line of its own: a node with a level less, anything else quoted. -/
def writeItems (levels : Option Int) (steps : Nat) : List Term → Except Fault String
  | [] => .ok ""
  | t :: ts => do
    let line ← if t.node?.isSome then do writeNode (← below levels) steps t else t.quoted
    return lineBreak steps ++ line ++ (← writeItems levels steps ts)

end

/-- The outline of a node. -/
def write (levels : Option Int) (indent : Int) (t : Term) : Except Fault String :=
  writeNode levels indent.toNat t

/-- The outline of a term, levels and indentation being any values. -/
def writeTerm (limit : Int) (t levels indent : Term) : Except Fault String := do
  write (levelsOf? levels) (← stepsOf limit indent) t

end Outline

/--
The outline of a value, where the host has room for lines that are indented by so many steps at
most.
-/
def Operation.summarize (limit : Int) (v levels indent : Value) : Operation Value :=
  request v "summarize" ⟨[levels, indent], []⟩ do
    return .text (← ofExcept (Outline.writeTerm limit (← read v) (← read levels) (← read indent)))

end Markup
