import Markup.Catalogue
import Markup.Node.Walk
import Markup.Rendering
import Markup.Text.UpperCase

/-!
# Visitors

Ready-made visitors for the two walkers: one looks at the frozen node only, the other two answer
with another node.
-/

namespace Markup

/-- A ready-made visitor. -/
inductive Visitor where
  | render
  | shout
  | wrap
deriving DecidableEq

namespace Visitor

open Operation (member readMember)

/-- The number of items of a value. -/
def count (v : Value) : Operation Nat := do
  Operation.ofExcept (← Operation.read v).count

/-- A content in upper case. -/
def loud (content : Value) : Operation Value := do
  match ← Operation.read content with
  | .text s => return .text (Text.upper s)
  | .atom (.bytes bs) => return .atom (.bytes (bs.map Text.upperByte))
  | .object _ (.buffer bs) => Operation.make (.buffer (bs.map Text.upperByte))
  | _ => Operation.demand content "upper" []

/-- A span with the content of a paragraph in upper case; anything else stays. -/
def shoutAt (v : Value) : Operation Value := do
  unless (← readMember v "name") == .text "p" do return v
  let span ← member (.ref World.defaultRegistry) "span"
  let content ← member v "content"
  let title ← Operation.makeMap [(.text "title", content)]
  Operation.callValue span ⟨[title, ← loud (← member v "content")], []⟩

/-- The name of a node with a text before it. -/
def nameAfter (before : String) (v : Value) : Operation Value := do
  match ← member v "name" with
  | .text s => return .text (before ++ s)
  | _ => Operation.fail .unsuitable

/-- A node with the name, the flag and the attributes of another one, and lost content. -/
def wrapAt (v : Value) : Operation Value := do
  let name ← nameAfter "x-" v
  let isVoid ← member v "is_void"
  let attrs ← member v "attrs"
  let children ← Operation.makeList [.text "lost"]
  Operation.makeNode name { isVoid, attrs, children }

/-- The answer of a visitor to a frozen node. -/
def visit (f : Visitor) (v : Value) : Operation Value := do
  match f with
  | .render => return .text (← Operation.render v)
  | .shout => shoutAt v
  | .wrap => wrapAt v

end Visitor

end Markup
