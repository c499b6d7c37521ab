import Markup.Message
import Markup.Suite.Arguments
import Markup.Suite.Discovery

/-!
# Running test files

The runner finds the test files, makes the build directory, and goes through the files one by one:
it announces each, runs it from the build directory, and leaves a blank line after one that fails.
At the end it says how many of how many failed, if any did, and its exit status says whether any
did.  What runs a file is given: the exit code of each run, by its number and the path that is
passed on.
-/

namespace Markup.Suite

/-- The directory that test files are run from. -/
def buildDirectory : List String := ["_build", "_utest"]

/--
The names on the way after one more component, the last name first: empty and dotted components
add none, and two dots take one back, if there is one.
-/
def descend (done : List String) (component : String) : List String :=
  if component = "" ∨ component = "." then done
  else if component = ".." then done.tail
  else component :: done

/-- The names on the way that components describe. -/
def normalize (components : List String) : List String := (components.foldl descend []).reverse

/-- A path seen from a directory, both given from the top. -/
def relativeFrom : List String → List String → List String
  | d :: ds, c :: cs =>
    if d = c then relativeFrom ds cs else List.replicate (ds.length + 1) ".." ++ c :: cs
  | ds, cs => List.replicate ds.length ".." ++ cs

namespace Place

/-- Where a path leads, by the names from the top. -/
def locate (p : Place) (path : String) : List String := normalize (p.componentsOf path)

/-- The place after a change to the build directory. -/
def inBuild (p : Place) : Place := ⟨p.top, p.workingDirectory ++ buildDirectory⟩

/-- A path as it is passed on to be run from the build directory. -/
def passed (p : Place) (path : String) : String :=
  match relativeFrom p.inBuild.workingDirectory (p.locate path) with
  | [] => "."
  | cs => "/".intercalate cs

/-- Makes the build directory, unless a file is in its way. -/
def makeBuildDirectory (p : Place) : Except Fault Unit :=
  match p.resolve "_build", p.resolve "_build/_utest" with
  | some .file, _ => .error .notADirectory
  | _, some .file => .error .fileExists
  | _, _ => .ok ()

end Place

/-- What a run of the runner did. -/
structure Summary where
  exitCode : Nat
  output : String
  errors : String
  /-- Each path that was run, as it was passed on, and the directory it was run from. -/
  runs : List (String × String)
deriving DecidableEq

/-- What is written about one test file. -/
def announcement (path : String) (code : Int) : String :=
  path ++ "\n" ++ (if code = 0 then "" else "\n")

/-- What was done so far. -/
structure Progress where
  output : String
  failed : List String
  runs : List (String × String)

/-- Nothing was done yet. -/
def Progress.start : Progress := ⟨"", [], []⟩

/-- Runs one test file. -/
def runTest (p : Place) (exitCode : Nat → String → Int) (done : Progress) (path : String) :
    Progress :=
  let code := exitCode done.runs.length (p.passed path)
  { output := done.output ++ announcement path code
    failed := if code = 0 then done.failed else done.failed ++ [path]
    runs := done.runs ++ [(p.passed path, "/".intercalate buildDirectory)] }

/-- What is said at the end. -/
def closing (failed paths : List String) : String :=
  if failed.isEmpty then ""
  else Message.lineOfTexts Message.joined
    [s!"utest: {failed.length} of {paths.length} test files failed."]

/-- Finds and runs test files; `exitCode` is that of each run, by its number and its path. -/
def run (p : Place) (arguments : List String) (exitCode : Nat → String → Int) :
    Except Fault Summary := do
  let paths ← findTests p (← requested arguments)
  p.makeBuildDirectory
  let done := paths.foldl (runTest p exitCode) .start
  return {
    exitCode := if done.failed.isEmpty then 0 else 1
    output := done.output
    errors := closing done.failed paths
    runs := done.runs }

end Markup.Suite
