import Markup.Calling
import Markup.Checks.Tally

/-!
# Running checks

A check of some kind calls a function with the arguments and keywords that it passes on, and
counts the outcome.  Two keywords are not passed on: one with the name of a parameter of the
check itself is refused, and the depth says where a failure is to be placed.  The items of an
expected sequence are taken before the call, any other expected value is looked at after it.

A check that is refused for the names of its keywords was never entered.  Any other one is counted,
whatever it ends with.
-/

namespace Markup.Checks

/-- The kinds of checks of a function. -/
inductive Kind where
  | value
  | shown
  | error
  | sequence
deriving DecidableEq

namespace Kind

/-- The names of the parameters of a check that come before what it passes on. -/
def parameters : Kind → List String
  | .value => ["exp", "fn"]
  | .shown => ["exp_repr", "fn"]
  | .error => ["exp_exc", "fn"]
  | .sequence => ["exp_seq", "fn"]

/-- The keyword that says how many callers away a failure is to be placed. -/
def depthKeyword : String := "_utest_depth"

/-- The depth of a call of a check, and what it passes on. -/
def passedOn (k : Kind) (c : Call Value) : Except Fault (Value × Call Value) :=
  if c.kw.any (k.parameters.contains ·.1) then .error .unsuitable
  else
    let (depth, kw) := Call.take depthKeyword c.kw
    .ok (depth.getD (.int 0), ⟨c.args, kw⟩)

/-- What a check of some kind expects; `items` are those of an expected sequence. -/
def expectation (k : Kind) (expected : Term) (items : List Term) : Expectation :=
  match k with
  | .value => .value expected
  | .shown => .shown expected
  | .error => .error expected
  | .sequence => .sequence items

end Kind

/-- What runs in a world and may raise any error. -/
abbrev Attempt (α : Type) : Type := ExceptT Raised (StateM World) α

/-- Runs an operation, whose faults are the errors that it raises. -/
def Attempt.ofOperation {α : Type} (x : Operation α) : Attempt α := ExceptT.mk do
  match ← x.run with
  | .ok a => return .ok a
  | .error f => return .error (.ofFault (← getThe World) f)

/--
Anything that a check can call: its name in reports, what a call of it does, and what going through
a value that it returned does.
-/
structure Callee where
  name : String
  call : Call Value → Attempt Value
  list : Value → Attempt (List Value)

namespace Callee

/-- An operation under a name, which returns values that are gone through as usual. -/
def ofOperation (name : String) (call : Call Value → Operation Value) : Callee where
  name
  call c := .ofOperation (call c)
  list v := .ofOperation (Operation.listedItems v)

/-- Calls a function at once, and gives it back; what it raises is not held back. -/
def callNow (f : Callee) : Attempt Callee := do
  discard <| f.call ⟨[], []⟩
  return f

/-- What comes of a call, whatever is raised by it or by going through what it returned. -/
def observe (f : Callee) (k : Kind) (c : Call Value) : StateM World Outcome := do
  match ← (f.call c).run with
  | .error r => return .raised r
  | .ok v =>
    if k = .sequence then
      match ← (f.list v).run with
      | .error r => return .raised r
      | .ok items => return .listed (items.map (← getThe World).read)
    else return .returned ((← getThe World).read v)

end Callee

/--
A check that is asked for: of a call, or of a value that is there already.  Where it is asked for,
it has some number of callers.
-/
inductive Request where
  | call (callers : Nat) (k : Kind) (expected : Value) (f : Callee) (c : Call Value)
  | value (callers : Nat) (description expected actual : Value)

namespace Request

/-- Why a check is not even entered, if it is refused. -/
def refusal? : Request → Option Fault
  | .call _ k _ _ c =>
    match k.passedOn c with
    | .error f => some f
    | .ok _ => none
  | .value .. => none

/-- The items that an expected sequence has; nothing else is gone through. -/
def expectedItems (k : Kind) (expected : Value) : Operation (List Value) :=
  if k = .sequence then Operation.listedItems expected else return []

/-- Tries what a check is asked for. -/
def tried : Request → Operation Trial
  | .call callers k expected f c => do
    let (depth, passed) ← Operation.ofExcept (k.passedOn c)
    let items ← expectedItems k expected
    let outcome ← f.observe k passed
    let w ← getThe World
    let kw := passed.kw.map fun e => (e.1, w.read e.2)
    return {
      subject := .ok ⟨f.name, passed.args.map w.read, kw, callers, w.read depth⟩
      expectation := k.expectation (w.read expected) (items.map w.read)
      outcome }
  | .value callers description expected actual => do
    let w ← getThe World
    return .ofValue callers (w.read description) (w.read expected) (w.read actual)

end Request

/-- What checks came to: the counts, what each of them reported, and the fault that ended them. -/
structure Progress where
  tally : Tally
  reports : List String
  fault? : Option Fault

namespace Tally

/-- Runs a check: the new counts, and what it reports or the fault that it ends with. -/
def perform (t : Tally) (q : Request) : StateM World (Tally × Except Fault String) := do
  match q.refusal? with
  | some f => return (t, .error f)
  | none =>
    match ← q.tried.run with
    | .error f => return (t.enter, .error f)
    | .ok trial => return t.enter.settle trial

/-- Runs checks one after the other, until one ends with a fault. -/
def performAll (t : Tally) : List Request → StateM World Progress
  | [] => return ⟨t, [], none⟩
  | q :: qs => do
    let (t, ending) ← t.perform q
    match ending with
    | .error f => return ⟨t, [], some f⟩
    | .ok report =>
      let rest ← t.performAll qs
      return { rest with reports := report :: rest.reports }

end Tally

end Markup.Checks
