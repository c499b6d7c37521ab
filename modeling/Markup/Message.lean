import Markup.Term.Display

/-!
# Messages

A diagnostic message is one line: the texts of its items with a separator between them, and a
line end.
-/

namespace Markup.Message

/-- The separator of messages to a file. -/
def spaced : String := " "

/-- The separator of messages to the error output. -/
def joined : String := ""

/-- A line of texts. -/
def lineOfTexts (separator : String) (texts : List String) : String :=
  separator.intercalate texts ++ "\n"

/-- A line of values. -/
def line (separator : String) (items : List Term) : Except Fault String := do
  return lineOfTexts separator (← items.mapM Term.plain)

/-- The separator that a value stands for; the missing value stands for a space. -/
def separatorOf : Term → Except Fault String
  | .none => .ok spaced
  | .text s => .ok s
  | _ => .error .unsuitable

end Markup.Message
