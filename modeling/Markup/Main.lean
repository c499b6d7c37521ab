import Markup.Suite.Listing

/-!
# The command line

`main` finds and runs the test files below the paths that it is given.  The working directory is
described by a listing on standard input.  What the runner writes goes to standard output and
standard error, and its exit status is returned.  Where it cannot start, the class of the error is
written and the exit status is one.
-/

namespace Markup.Suite

/-- Everything that a stream still holds, after what was read already. -/
partial def readRest (stream : IO.FS.Stream) (already : String) : IO String := do
  let line ← stream.getLine
  if line.isEmpty then return already
  readRest stream (already ++ line)

end Markup.Suite

/-- Runs the test files that the arguments ask for. -/
def main (arguments : List String) : IO UInt32 := do
  let listing := Markup.Suite.Listing.read (← Markup.Suite.readRest (← IO.getStdin) "")
  match listing.run arguments with
  | .ok summary =>
    IO.print summary.output
    IO.eprint summary.errors
    return summary.exitCode.toUInt32
  | .error fault =>
    IO.eprintln fault.errorClass.name
    return 1
