import Markup.Checks.Report

/-!
# Counting checks

A `Tally` counts the checks that were run and those that failed.  A check adds one to the first
count before anything else is done.  If it fails, it adds one to the second, and then it writes one
report to the error output: what is counted stays counted if the report cannot be written.  The
exit report says both counts and forces a failing exit status, but only if some check failed.
-/

namespace Markup.Checks

/-- What was tried in a check: on what, what was expected of it, and what came of it. -/
structure Trial where
  subject : Except Fault Subject
  expectation : Expectation
  outcome : Outcome

namespace Trial

/-- The subject of a check of a value without a function: its description, quoted. -/
def described (callers : Nat) (description : Term) : Except Fault Subject := do
  return ⟨← description.quoted, [], [], callers, .atom (.int 0)⟩

/-- What is tried with a value that is there already. -/
def ofValue (callers : Nat) (description expected actual : Term) : Trial :=
  ⟨described callers description, .value expected, .returned actual⟩

end Trial

/-- How many checks were run, and how many of them failed. -/
structure Tally where
  tests : Nat
  failures : Nat
deriving DecidableEq

namespace Tally

/-- Nothing has been checked. -/
def start : Tally := ⟨0, 0⟩

/-- One more check was run. -/
def enter (t : Tally) : Tally := { t with tests := t.tests + 1 }

/-- One more check failed. -/
def miss (t : Tally) : Tally := { t with failures := t.failures + 1 }

/-- The description of a value that was given none. -/
def defaultDescription : String := "<value>"

/--
Settles what was tried in a check that is counted already: the new counts, and what is reported or
the fault that the check ends with.  What the check was run on is only described if it failed.
-/
def settle (t : Tally) (trial : Trial) : Tally × Except Fault String :=
  match trial.expectation.judge trial.outcome with
  | .error f => (t, .error f)
  | .ok none => (t, .ok "")
  | .ok (some failure) =>
    match trial.subject with
    | .error f => (t, .error f)
    | .ok s => (t.miss, Report.write s failure)

/-- The exit report: what is written, and the forced exit status if there is one. -/
def exitReport (t : Tally) : String × Option Nat :=
  if 0 < t.failures then
    (Report.line [s!"\nutest ran: {t.tests}; failed: {t.failures}"], some 1)
  else ("", none)

end Tally

end Markup.Checks
