import Markup.Fault
import Markup.Text.Blank
import Markup.Text.Digit

/-!
# Arguments of the runner

The arguments of the runner are paths.  What starts with a dash is an option, and all that the
runner does for an option is to say how it is used.  Three kinds of arguments with a dash are paths
all the same: a dash alone, a number below zero, and what has a space in it, unless the option is
the one for help, which is known by its first letters.  The first `--` is left out, and what follows
it are paths only.
-/

namespace Markup.Suite

/-- The paths that are searched when none are given. -/
def defaultPaths : List String := ["test"]

/-- Whether what follows a dash makes it a number: digits with at most one point before the last. -/
def isNumeral (cs : List Char) : Bool :=
  let isDigit (c : Char) := (Text.digitValue? c).isSome
  let line := if cs.getLast? = some '\n' then cs.dropLast else cs
  match Text.splitAt (· == '.') line with
  | [whole] => !whole.isEmpty && whole.all isDigit
  | [whole, part] => whole.all isDigit && !part.isEmpty && part.all isDigit
  | _ => false

/-- Whether an argument is taken for an option. -/
def isOption (argument : String) : Bool :=
  match argument.toList with
  | '-' :: 'h' :: _ => true
  | '-' :: '-' :: cs =>
    (cs.takeWhile (· != '=')).isPrefixOf "help".toList || !cs.contains ' '
  | '-' :: c :: cs => !isNumeral (c :: cs) && !(c :: cs).contains ' '
  | _ => false

/-- The paths that arguments ask for. -/
def requested (arguments : List String) : Except Fault (List String) :=
  if (arguments.takeWhile (· != "--")).any isOption then .error .usage
  else
    let paths := arguments.erase "--"
    .ok (if paths.isEmpty then defaultPaths else paths)

end Markup.Suite
