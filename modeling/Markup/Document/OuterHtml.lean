import Markup.Calling
import Markup.Html

/-!
# The text of an element

An element in memory is written from what it holds: its id and its class name unless empty, its
style attribute, its other attributes in order, then its children.  A void element that writes
nothing inside has no closing tag.
-/

namespace Markup

namespace Html

/-- A property that is shown unless it is empty. -/
def propertyPair (key : String) (value : Term) : Except Fault (List (String × String)) :=
  if value.truthy then do return [(key, ← value.plain)] else .ok []

/-- The style among some attributes, which are looked up by key first. -/
def elementStyle (attributes : Term) : Except Fault (List (String × String)) :=
  match attributes with
  | .map _ es =>
    match Entries.get? es (.text "style") with
    | none | some .none => .ok []
    | some style => do return [("style", ← style.plain)]
  | t => do
    discard <| t.ask "get"
    throw t.withoutEntries

/-- The pairs that the opening tag of an element shows. -/
def elementPairs (id className attributes : Term) : Except Fault (List (String × String)) := do
  let idPart ← propertyPair "id" id
  let classPart ← propertyPair "class" className
  let stylePart ← elementStyle attributes
  let others ← ((← attributes.entries).filter fun e => !e.1 == .text "style").mapM fun e => do
    let key ← e.1.plain
    return (key, ← e.2.plain)
  return idPart ++ classPart ++ stylePart ++ others

/-- Why a child has no text: nothing else that it can be asked for is one. -/
def withoutText (t : Term) : Fault :=
  match t.ask "outer_html" with
  | .error f => f
  | .ok _ => .unsuitable

/-- The texts of some children that are no elements. -/
def outerLeaves (ts : List Term) : Except Fault String :=
  match ts with
  | [] => .ok ""
  | t :: _ => .error (withoutText t)

mutual

/-- The text of an element by its parts. -/
def outerElement : Element Term → Except Fault String
  | ⟨_, name, isVoid, id, className, attributes, _, childNodes, _⟩ => do
    let tag ← name.plain
    let head := openingTag tag (← elementPairs id className attributes)
    let inner ← outerChildren childNodes
    if isVoid.truthy && inner == "" then return head
    return head ++ inner ++ closingTag tag

/-- The texts of the items of what holds the children. -/
def outerChildren : Term → Except Fault String
  | .list _ items => outerAll items
  | .tuple _ items => outerAll items
  | t =>
    match t.leaves? with
    | some ts => outerLeaves ts
    | none => .error (.notIterable t.typeName)

/-- The texts of some children, one after the other. -/
def outerAll : List Term → Except Fault String
  | [] => .ok ""
  | t :: ts => do
    let s ← outerChild t
    return s ++ (← outerAll ts)

/-- The text of a child, unless it was given another answer to being asked for it. -/
def outerChild : Term → Except Fault String
  | .object id (.element e) =>
    if Entries.has e.extras "outer_html" then .error (withoutText (.object id (.element e)))
    else outerElement e
  | .object id (.textNode data extras) =>
    if Entries.has extras "outer_html" then
      .error (withoutText (.object id (.textNode data extras)))
    else escapeTerm data
  | t => .error (withoutText t)

end

end Html

/-- The text that a value gives when it is asked for its own. -/
def Operation.outerHtml (v : Value) : Operation Value :=
  request v "outer_html" ⟨[], []⟩ do
    match ← readInside v with
    | .object _ (.element e) => return .text (← ofExcept (Html.outerElement e))
    | .object _ (.textNode data _) => return .text (← ofExcept (Html.escapeTerm data))
    | _ => fail .unsuitable

end Markup
