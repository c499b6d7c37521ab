import Markup.Message
import Markup.Store

/-!
# Outcomes and expectations

A tested function either returns a value or raises an error, which a check knows by its class
and its arguments.  A check of a sequence also goes through the value that was returned, which may
raise an error too.  A check expects a value, the text of a value, an error, or the items of a
value; `Expectation.judge` decides whether an outcome is as expected and, if not, says what to
report.

An expected error can be a text, which has to be the text of the error raised, a class, which the
error has to be of, or an error, with which it has to agree in class and arguments.
-/

namespace Markup.Checks

/-- An error as a check sees it. -/
structure Raised where
  errorClass : ErrorClass
  arguments : List Term

namespace Raised

/-- The error that a fault of the host's own is. -/
def ofHost (f : Fault) : Raised := ⟨f.errorClass, (f.hostMessage?.map Term.text).toList⟩

/-- The error that a fault is in a world. -/
def ofFault (w : World) (f : Fault) : Raised :=
  match f.argument? with
  | some argument => ⟨f.errorClass, [w.read argument]⟩
  | none => ofHost f

/-- The error as a term; only its class and its arguments matter. -/
def toTerm (r : Raised) : Term := .object 0 (.error r.errorClass r.arguments [])

end Raised

/-- What a tested function did, and where its value was gone through, what came of that. -/
inductive Outcome where
  | returned (value : Term)
  | listed (items : List Term)
  | raised (error : Raised)

namespace Outcome

/-- The word for what came of a call. -/
def label : Outcome → String
  | .returned _ => "returned value:"
  | .listed _ => "returned sequence:"
  | .raised _ => "raised exception:"

/-- What came of a call, as a value. -/
def toTerm : Outcome → Term
  | .returned v => v
  | .listed items => .list 0 items
  | .raised r => r.toTerm

end Outcome

/-- Whether two values of one type that are no errors agree in the arguments that they have. -/
def sameArguments (expected actual : Term) : Except Fault Bool := do
  match ← expected.find "args", ← actual.find "args" with
  | .part xs, .part ys => return Term.eq xs ys
  | _, _ => return false

/-- Whether an error that was raised is as expected. -/
def sameError (expected actual : Term) : Except Fault Bool :=
  match expected, actual with
  | .text s, _ => do return s == (← actual.quoted)
  | .atom (.errorClass c), .object _ (.error d ..) => .ok (d.isA c)
  | .atom (.errorClass _), _ => .ok false
  | .object _ (.error c xs _), .object _ (.error d ys _) => .ok (c == d && Term.allSame xs ys)
  | _, .object _ (.error ..) => .ok false
  | .object _ (.error ..), _ => .ok false
  | _, _ =>
    if expected.typeName = actual.typeName then sameArguments expected actual else .ok false

/-- What a check expects of an outcome. -/
inductive Expectation where
  | value (expected : Term)
  | shown (expected : Term)
  | error (expected : Term)
  | sequence (expected : List Term)

/-- What went wrong in a check: what was expected and what came instead. -/
structure Failure where
  expectedLabel : String
  expected : Term
  outcome : Outcome

namespace Expectation

/-- The word for what is expected. -/
def label : Expectation → String
  | .value _ => "value"
  | .shown _ => "repr"
  | .error _ => "exception"
  | .sequence _ => "sequence"

/-- What is expected, as a value. -/
def toTerm : Expectation → Term
  | .value t => t
  | .shown t => t
  | .error t => t
  | .sequence ts => .list 0 ts

/-- The failure of an outcome. -/
def failure (e : Expectation) (outcome : Outcome) : Failure := ⟨e.label, e.toTerm, outcome⟩

/-- Whether an outcome is as expected. -/
def admits (e : Expectation) (outcome : Outcome) : Except Fault Bool :=
  match e, outcome with
  | .value expected, .returned v => .ok (Term.eq expected v)
  | .shown expected, .returned v => do return Term.eq expected (.text (← v.quoted))
  | .sequence expected, .listed items => .ok (Term.allSame expected items)
  | .error expected, .raised r => sameError expected r.toTerm
  | _, _ => .ok false

/-- What to report if an outcome is not as expected. -/
def judge (e : Expectation) (outcome : Outcome) : Except Fault (Option Failure) := do
  return if ← e.admits outcome then none else some (e.failure outcome)

end Expectation

end Markup.Checks
