import Markup.Text.Entity
import Markup.Term.Equality
import Markup.Term.Display
import Markup.CallForm

/-!
# Serialising nodes

A node is written as its opening tag with the shown attributes, its escaped content, its
children in order, and its closing tag.  A void node without content and children is the opening
tag alone.

The shown attributes are pairs of a key and a text, in this order: the id if there is one, the
classes joined by spaces if there are any, the style if there is one, then the plain attributes.
A boolean attribute that is true has its own key for its text, and one that is false is not shown.

A child is a text or a node; the first child in document order that is neither is the fault.
-/

namespace Markup

namespace Html

/-- The escaped text of any value. -/
def escapeTerm (t : Term) : Except Fault String := do
  return Text.escape (← t.plain)

/-- The texts among some terms; anything else is refused. -/
def textsOf (ts : List Term) : Except Fault (List String) :=
  ts.mapM fun t => match t with
    | .text s => .ok s
    | _ => .error .unsuitable

/-- Some terms, all of them texts, joined by spaces. -/
def joinTexts (ts : List Term) : Except Fault String := do
  return " ".intercalate (← textsOf ts)

/--
The items of a value, all of them texts, joined by spaces.  What is no list or tuple is listed
first, for which there has to be room.
-/
def joinClasses (classes : Term) : Except Fault String :=
  match classes with
  | .list _ items => joinTexts items
  | .tuple _ items => joinTexts items
  | t => do
    t.checkRoom
    match t.leaves? with
    | some ts => joinTexts ts
    | none => .error .unsuitable

/-- The declarations of a style, `property:value;` each. -/
def styleText (style : Term) : Except Fault String := do
  let parts ← (← style.entries).mapM fun e => do
    let property ← e.1.plain
    return Style.writeEntry property (← e.2.plain)
  return String.join parts

/--
Whether a key is that of a boolean attribute.  Only what has an upper and a lower case can be
asked.
-/
def isBooleanKey (key : Term) : Except Fault Bool :=
  match key with
  | .text s => .ok (Vocabulary.isBooleanAttribute s)
  | .atom (.bytes _) => .ok false
  | .object _ (.buffer _) => .error .unsuitable
  | t => do
    if (← t.ask "lower") = .node then throw .unsuitable
    return false

/-- The text of an attribute value outside the boolean rule. -/
def valueText (value : Term) : Except Fault String :=
  match value with
  | .none => .ok "none"
  | v => Roles.primitiveText v

/--
The value that is shown for an attribute after the boolean rule: the key itself where a boolean
attribute is true, nothing where it is false, else the text of the value.
-/
def shownValue (key value : Term) : Except Fault (Option Term) := do
  if ← isBooleanKey key then
    match value with
    | .atom (.bool true) => return some key
    | .atom (.bool false) => return none
    | v => return some (.text (← valueText v))
  else return some (.text (← valueText value))

/-- The id, if it is shown. -/
def shownId (id : Term) : Except Fault (List (String × String)) :=
  if id.isNone then .ok [] else do return [("id", ← id.plain)]

/-- The classes, if they are shown. -/
def shownClasses (classes : Term) : Except Fault (List (String × String)) :=
  if classes.truthy then do return [("class", ← joinClasses classes)] else .ok []

/-- The style, if it is shown. -/
def shownStyle (style : Term) : Except Fault (List (String × String)) :=
  if style.isNone then .ok [] else do return [("style", ← styleText style)]

/-- A plain attribute, if it is shown. -/
def shownAttr (key value : Term) : Except Fault (List (String × String)) := do
  match ← shownValue key value with
  | none => return []
  | some v => return [(← key.plain, ← v.plain)]

/-- The plain attributes that are shown. -/
def shownAttrs (attrs : Term) : Except Fault (List (String × String)) := do
  return ((← (← attrs.entries).mapM fun e => shownAttr e.1 e.2)).flatten

/-- The pairs that the opening tag shows, in order. -/
def shownPairs (id classes style attrs : Term) : Except Fault (List (String × String)) := do
  let idPart ← shownId id
  let classPart ← shownClasses classes
  let stylePart ← shownStyle style
  return idPart ++ classPart ++ stylePart ++ (← shownAttrs attrs)

/-- One attribute inside a tag. -/
def attributeText (key value : String) : String :=
  " " ++ key ++ "=\"" ++ Text.escape value ++ "\""

/-- The attributes inside a tag. -/
def attributesText (pairs : List (String × String)) : String :=
  String.join (pairs.map fun e => attributeText e.1 e.2)

/-- An opening tag. -/
def openingTag (name : String) (pairs : List (String × String)) : String :=
  "<" ++ name ++ attributesText pairs ++ ">"

/-- A closing tag. -/
def closingTag (name : String) : String := "</" ++ name ++ ">"

/-- The fault of a child that is neither a text nor a node. -/
def invalidChild (t : Term) : Fault :=
  match t.quoted with
  | .ok shown => .invalidChild t.typeName shown
  | .error f => f

/-- The written form of children that cannot be nodes. -/
def leavesHtml : List Term → Except Fault String
  | [] => .ok ""
  | .text s :: ts => do
    return Text.escape s ++ (← leavesHtml ts)
  | t :: _ => .error (invalidChild t)

/-- The content inside a tag. -/
def contentText (content : Term) : Except Fault String :=
  if content.truthy then escapeTerm content else .ok ""

mutual

/-- The written form of a node. -/
def renderNode : Node Term → Except Fault String
  | ⟨name, isVoid, id, classes, style, _, attrs, content, children⟩ => do
    let tag ← name.plain
    let head := openingTag tag (← shownPairs id classes style attrs)
    if isVoid.truthy && !children.truthy && !content.truthy then return head
    let text ← contentText content
    let inner ← renderChildren children
    return head ++ text ++ inner ++ closingTag tag

/-- The written form of what holds the children. -/
def renderChildren : Term → Except Fault String
  | .list _ items => renderItems items
  | .tuple _ items => renderItems items
  | t =>
    match t.leaves? with
    | some ts => leavesHtml ts
    | none => .error (.notIterable t.typeName)

/-- The written form of some children. -/
def renderItems : List Term → Except Fault String
  | [] => .ok ""
  | t :: ts => do
    let s ← renderChild t
    return s ++ (← renderItems ts)

/-- The written form of a child. -/
def renderChild : Term → Except Fault String
  | .text s => .ok (Text.escape s)
  | .node _ n => renderNode n
  | t => .error (invalidChild t)

end

end Html

end Markup
