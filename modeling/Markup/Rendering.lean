import Markup.Calling
import Markup.Html

/-!
# Writing any value

`Operation.render` writes a node.  Any other value is written as a node is, as long as it has
the members that are asked for on the way; the first one that is missing is the fault.
-/

namespace Markup.Operation

/-- The member of a value, unfolded. -/
def readMember (v : Value) (name : String) : Operation Term := do
  read (← member v name)

/-- The pairs that the opening tag of a value shows, each read when its turn comes. -/
def shownPairsOf (v : Value) : Operation (List (String × String)) := do
  let idPart ← ofExcept (Html.shownId (← readMember v "id"))
  let classPart ← ofExcept (Html.shownClasses (← readMember v "class_list"))
  let stylePart ← ofExcept (Html.shownStyle (← readMember v "style"))
  let attrPart ← ofExcept (Html.shownAttrs (← readMember v "attrs"))
  return idPart ++ classPart ++ stylePart ++ attrPart

/-- Whether the opening tag of a value is all that is written. -/
def isOpenOnly (v : Value) : Operation Bool := do
  unless (← readMember v "is_void").truthy do return false
  if (← readMember v "children").truthy then return false
  return !(← readMember v "content").truthy

/-- The written form of a value that is no node. -/
def renderAlike (v : Value) : Operation String := do
  let tag ← ofExcept (← readMember v "name").plain
  let head := Html.openingTag tag (← shownPairsOf v)
  if ← isOpenOnly v then return head
  let text ← ofExcept (Html.contentText (← readMember v "content"))
  let inner ← ofExcept (Html.renderChildren (← readMember v "children"))
  return head ++ text ++ inner ++ Html.closingTag (← ofExcept (← readMember v "name").plain)

/-- The written form of a value. -/
def render (v : Value) : Operation String := do
  match ← read v with
  | .node _ n => ofExcept (Html.renderNode n)
  | _ => renderAlike v

/-- What a value gives when it is asked to write itself. -/
def askRendered (v : Value) : Operation Value :=
  request v "render" ⟨[], []⟩ do return .text (← render v)

/-- The written forms of the items of a value, one after the other. -/
def renderList (nodes : Value) : Operation String := do
  return String.join (← answersOf render nodes)

end Markup.Operation
