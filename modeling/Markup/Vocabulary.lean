/-!
# The vocabulary

The tags of the default registry in their order, the tags that are void unless a registration
says otherwise, the attributes whose presence is their meaning, the beginning of the keys under
which listeners are passed, and the keys that keywords stand for.
-/

namespace Markup.Vocabulary

/-- The tags of the default registry. -/
def knownTags : List String := [
  "a", "abbr", "acronym", "address", "applet", "area", "article", "aside", "audio",
  "b", "base", "basefont", "bdi", "bdo", "bgsound", "big", "blink", "blockquote", "body", "br",
  "button",
  "canvas", "caption", "center", "cite", "code", "col", "colgroup", "command", "content",
  "data", "datalist", "dd", "del", "details", "dfn", "dialog", "dir", "div", "dl", "dt",
  "element", "em", "embed",
  "fieldset", "figcaption", "figure", "font", "footer", "form", "frame", "frameset",
  "h1", "h2", "h3", "h4", "h5", "h6", "head", "header", "hgroup", "hr", "html",
  "i", "iframe", "image", "img", "input", "ins", "isindex",
  "kbd", "keygen",
  "label", "legend", "li", "link", "listing",
  "main", "map", "mark", "marquee", "menu", "menuitem", "meta", "meter", "multicol",
  "nav", "nobr", "noembed", "noframes", "noscript",
  "object", "ol", "optgroup", "option", "output",
  "p", "param", "picture", "plaintext", "pre", "progress",
  "q",
  "rp", "rt", "rtc", "ruby",
  "s", "samp", "script", "section", "select", "shadow", "small", "source", "spacer", "span",
  "strike", "strong", "style", "sub", "summary", "sup",
  "table", "tbody", "td", "template", "textarea", "tfoot", "th", "thead", "time", "title", "tr",
  "track", "tt",
  "u", "ul",
  "var", "video",
  "wbr",
  "xmp"
]

/-- The tags without a closing tag when they are empty. -/
def voidTags : List String := [
  "area", "base", "br", "col", "embed", "hr", "img", "input", "keygen", "link", "meta", "param",
  "source", "track", "wbr"
]

/-- The attributes whose presence, not value, is meaningful. -/
def booleanAttributes : List String := [
  "allowfullscreen", "async", "autofocus", "autoplay", "checked", "controls", "default", "defer",
  "disabled", "formnovalidate", "hidden", "inert", "ismap", "itemscope", "loop", "multiple",
  "muted", "nomodule", "novalidate", "open", "playsinline", "readonly", "required", "reversed",
  "selected"
]

/-- The beginning of a listener key; what follows is the event. -/
def listenerMark : String := "on"

/--
The ASCII letter that a character has for its lower case, or the character itself.  Besides the
capitals only the Kelvin sign has an ASCII letter as its whole lower case, so comparing with an
ASCII name after this map is comparing without regard to case.
-/
def asciiLower (c : Char) : Char :=
  if 'A' ≤ c ∧ c ≤ 'Z' then Char.ofNat (c.toNat + 32)
  else if c = '\u212a' then 'k'
  else c

/-- Whether a key names a boolean attribute, whatever its case. -/
def isBooleanAttribute (key : String) : Bool :=
  booleanAttributes.contains (String.ofList (key.toList.map asciiLower))

/--
The attribute key that a keyword stands for: one underscore at the end is dropped, so that
reserved words can be passed, and every other underscore is a hyphen.
-/
def keyOfKeyword (keyword : String) : String :=
  let cs := keyword.toList
  let cs := if cs.getLast? = some '_' then cs.dropLast else cs
  String.ofList (cs.map fun c => if c = '_' then '-' else c)

end Markup.Vocabulary
