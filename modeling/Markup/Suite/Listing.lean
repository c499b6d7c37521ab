import Markup.Entries
import Markup.Suite.Run

/-!
# Listings

A listing describes a working directory and what happens when its test files are run.  Every
line is the path of a file, followed where its tests fail by a tab and the exit code that they
end with.  A line without a path lists nothing, and a code that is no integer counts as zero.
-/

namespace Markup.Suite

/-- Files, and the exit codes of those that say one. -/
structure Listing where
  files : List String
  codes : Entries String Int
deriving DecidableEq

namespace Listing

/-- The path and the exit code that a line lists. -/
def line? (cs : List Char) : Option (String × Int) :=
  let path := cs.takeWhile (· != '\t')
  let code := String.ofList ((cs.dropWhile (· != '\t')).drop 1)
  if path.isEmpty then none else some (String.ofList path, code.toInt?.getD 0)

/-- The listing that a text is. -/
def read (s : String) : Listing :=
  let lines := (Text.splitAt (· == '\n') s.toList).filterMap line?
  ⟨lines.map (·.1), Entries.ofList lines⟩

/-- The place that a listing describes. -/
def place (l : Listing) : Place := .ofPaths l.files

/-- The exit code of a path as it is passed on from the build directory. -/
def codeOf (l : Listing) (passed : String) : Int :=
  let codes : Entries String Int := l.codes.map fun e => (l.place.passed e.1, e.2)
  (codes.get? passed).getD 0

/-- Finds and runs the test files that arguments ask for. -/
def run (l : Listing) (arguments : List String) : Except Fault Summary :=
  Suite.run l.place arguments fun _ => l.codeOf

end Listing

end Markup.Suite
