import Markup.Access
import Markup.Construction

/-!
# Calling values

Constructors, listeners and classes of errors can be called, and nothing else can.  A constructor
makes a node, a listener is heard and may refuse, and a class makes an error.

`Operation.request` asks a value for something by name.  A value that has the skill does it, and
what else the name leads to is called instead.
-/

namespace Markup.Operation

/-- Calls a constructor. -/
def callConstructor (made : Constructor Value) (c : Call Value) : Operation Value := do
  (← ofExcept (Arguments.ofCall ["self"] c)).construct made.name made.isVoid

/-- Notes that a listener was called. -/
def hear (name : Value) (args : List Value) : Operation Unit :=
  modifyThe World fun w => { w with heard := w.heard.push (name, args) }

/--
Calls a listener that only notes its call, takes arguments only and gives nothing.  Whoever uses the
library may have others: what goes through listeners takes the call of one as a parameter.
-/
def callListener (name : Value) (refusal : Option String) (c : Call Value) :
    Operation Value := do
  unless c.kw.isEmpty do fail .unsuitable
  hear name c.args
  match refusal with
  | some message => fail (.refused message)
  | none => return .none

/--
Makes an error of a class from its arguments.  A conflict is made from its three keywords alone,
and no other error takes any.
-/
def makeError (e : ErrorClass) (c : Call Value) : Operation Value := do
  if e = .conflict then
    match Entries.get? c.kw "key", c.kw.all (["key", "existing", "incoming"].contains ·.1) with
    | some key, true =>
      unless c.args.isEmpty && c.kw.length = 3 do fail .unsuitable
      make (.error e [key] [])
    | _, _ => fail .unsuitable
  else
    unless c.kw.isEmpty do fail .unsuitable
    make (.error e c.args [])

/-- Calls a value. -/
def callValue (callee : Value) (c : Call Value) : Operation Value := do
  match callee with
  | .atom (.errorClass e) => makeError e c
  | .atom _ => fail .unsuitable
  | .ref id =>
    match ← get? id with
    | some (.constructor made) => callConstructor made c
    | some (.listener name refusal _ _) => callListener name refusal c
    | _ => fail .unsuitable

/-- Asks a value for something: `skill` is what it does if it can itself. -/
def request (v : Value) (name : String) (c : Call Value) (skill : Operation Value) :
    Operation Value := do
  match ← find v name with
  | .skill => skill
  | .part callee => callValue callee c

/-- Asks a value for something that it has no skill for. -/
def demand (v : Value) (name : String) (args : List Value) : Operation Value :=
  request v name ⟨args, []⟩ (fail .unsuitable)

/-- Appends to a list or to bytes, in place. -/
def append (target item : Value) : Operation Unit := do
  match ← objectOf target with
  | some (id, .list items) => put id (.list (items ++ [item]))
  | some (id, .buffer bytes) =>
    put id (.buffer (bytes ++ [← ofExcept (← read item).toByte]))
  | _ => discard <| demand target "append" [item]

/-- Appends to what a map holds under a key, or to a new list there. -/
def appendUnder (target key item : Value) : Operation Unit := do
  match ← objectOf target with
  | some (id, .map entries) =>
    let k ← readKey key
    match ((← getThe World).readKeys entries).get? k with
    | some held => append held item
    | none =>
      let held ← makeList [item]
      put id (.map (entries ++ [(key, held)]))
  | _ =>
    let held ← demand target "setdefault" [key, ← makeList []]
    append held item

/-- The key that a value stands for as a keyword. -/
def keyOf (v : Value) : Operation Value := do
  match ← read v with
  | .text s => return .text (Vocabulary.keyOfKeyword s)
  | _ =>
    let marked ← demand v "endswith" [.text "_"]
    if (← read marked).truthy then fail .unsuitable
    demand v "replace" [.text "_", .text "-"]

end Markup.Operation
