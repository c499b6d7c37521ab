/-!
# Character entities

The five characters with a meaning in markup are written as entities, every other character
as itself.  Each character is escaped on its own, so escaping is a homomorphism, and text that
looks like an entity is escaped like any other.
-/

namespace Markup.Text

/-- The written form of one character. -/
def escapeChar (c : Char) : List Char :=
  if c = '&' then "&amp;".toList
  else if c = '<' then "&lt;".toList
  else if c = '>' then "&gt;".toList
  else if c = '\x22' then "&quot;".toList
  else if c = '\x27' then "&apos;".toList
  else [c]

/-- The written form of a text. -/
def escape (s : String) : String := String.ofList (s.toList.flatMap escapeChar)

@[simp] theorem toList_escape (s : String) :
    (escape s).toList = s.toList.flatMap escapeChar := by simp [escape]

@[simp] theorem escape_empty : escape "" = "" := rfl

theorem escape_append (s t : String) : escape (s ++ t) = escape s ++ escape t := by
  simp [escape]

end Markup.Text
