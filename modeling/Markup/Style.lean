import Markup.Entries
import Markup.Text.Blank

/-!
# Style declarations

A style is a map from properties to values, both texts.  `Style.write` writes each entry as
`property:value;`.  `Style.read` cuts a text at the semicolons, each piece at its first colon,
and trims both sides; a piece without a colon or without a property is dropped, and a property
given again keeps its place and takes its last value.
-/

namespace Markup

/-- Properties and their values. -/
abbrev Style : Type := Entries String String

namespace Style

/-- The declaration that a piece between semicolons is, if it is one. -/
def declaration? (piece : List Char) : Option (String × String) :=
  let property := Text.trimBy Text.isBlank (piece.takeWhile (· != ':'))
  match piece.dropWhile (· != ':') with
  | [] => none
  | _ :: value =>
    if property.isEmpty then none
    else some (String.ofList property, String.ofList (Text.trimBy Text.isBlank value))

/-- The style that a text of declarations describes. -/
def read (s : String) : Style :=
  Entries.ofList ((Text.splitAt (· == ';') s.toList).filterMap declaration?)

/-- The text of one declaration. -/
def writeEntry (property value : String) : String := property ++ ":" ++ value ++ ";"

/-- The text of a style. -/
def write (style : Style) : String := String.join (style.map fun e => writeEntry e.1 e.2)

end Style

end Markup
