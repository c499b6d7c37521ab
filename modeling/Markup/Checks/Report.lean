import Markup.Checks.Outcome

/-!
# Failure reports

A failed check reports the name of the tested function, its arguments and keywords, and under
labels of one width what was expected and what came instead.  An error that was raised is also
shown by its arguments and as the last line of a trace.  The caller in which a failure is placed
is not part of the report, but it has to be there.
-/

namespace Markup.Checks

/-- What a check was run on, and where a failure of it is to be placed. -/
structure Subject where
  name : String
  args : List Term
  kw : List (String × Term)
  /-- How many callers the check has, each of them called by the next one. -/
  callers : Nat
  /-- How many callers there are between the check and the one in which a failure is placed. -/
  depth : Term

/-- The caller in which a failure is placed; the check and its report are nearer than any. -/
def Subject.caller (s : Subject) : Except Fault Nat :=
  match s.depth.toInt? with
  | none => .error .unsuitable
  | some n =>
    match placeOf? (s.callers + 2) (n + 2) with
    | some caller => .ok caller
    | none => .error .outOfRange

namespace Report

/-- A line of the error output. -/
def line (texts : List String) : String := Message.lineOfTexts Message.joined texts

/-- A text padded to a width. -/
def padded (width : Nat) (s : String) : String :=
  s ++ String.ofList (List.replicate (width - s.length) ' ')

/-- Lines for some values, each after its position. -/
def positions (before after : String) : Nat → List Term → Except Fault String
  | _, [] => .ok ""
  | i, t :: ts => do
    let head := line [before, toString i, after, ← t.quoted]
    return head ++ (← positions before after (i + 1) ts)

/-- Lines for the keywords. -/
def keywords : List (String × Term) → Except Fault String
  | [] => .ok ""
  | (name, t) :: kw => do
    let head := line ["  arg ", name, " = ", ← t.quoted]
    return head ++ (← keywords kw)

/-- What stands for the text of an error that has none because showing it fails. -/
def noText : String := "<exception str() failed>"

/-- The last line of a trace: the class of the error, and its text if it has one. -/
def traceEnd (r : Raised) : String :=
  let text := match r.toTerm.plain with
    | .ok text => text
    | .error _ => noText
  r.errorClass.qualifiedName ++ (if text = "" then "" else ": " ++ text)

/-- What an error adds to a report. -/
def raisedLines (r : Raised) : Except Fault String := do
  let arguments ← positions "    exc arg " ": " 0 r.arguments
  return arguments ++ line [] ++ line ["Traceback (most recent call last):"] ++
    line [traceEnd r]

/-- The lines that what came instead adds. -/
def resultLines : Outcome → Except Fault String
  | .raised r => raisedLines r
  | _ => .ok ""

/-- The report of a failed check. -/
def write (s : Subject) (f : Failure) : Except Fault String := do
  discard <| s.caller
  let args ← positions "  arg " " = " 0 s.args
  let kw ← keywords s.kw
  let expectedLabel := "expected " ++ f.expectedLabel ++ ":"
  let resultLabel := f.outcome.label
  let width := max expectedLabel.length resultLabel.length
  let expectedLine := line ["  ", padded width expectedLabel, " ", ← f.expected.quoted]
  let resultLine := line ["  ", padded width resultLabel, " ", ← f.outcome.toTerm.quoted]
  let more ← resultLines f.outcome
  return line ["\nutest failure: ", s.name] ++ args ++ kw ++ expectedLine ++ resultLine ++ more ++
    line []

end Report

end Markup.Checks
