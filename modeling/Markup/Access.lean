import Markup.Store

/-!
# Looking members up

`Operation.find` says what a name leads to on any value, and `Operation.member` takes what it
leads to as a value.  Some members are made when they are asked for: the list of the calls that a
recording document has seen, which is the same list from then on, and copies of what an error and
a registry keep.

`Operation.answersOf` goes through the items of a value as they come, because what is done with
one item may add others to the same list.
-/

namespace Markup.Operation

/-- The list of the calls that a recording has seen, to which later calls are added. -/
def listingOf (id : Nat) (r : Recording Value) : Operation Value := do
  match r.listing with
  | some listing => return listing
  | none =>
    let listing ← makeList (← r.calls.toList.mapM fun c => make (.tuple c.entry))
    put id (.recordingDocument { r with listing := some listing })
    return listing

/-- The members of an object that are made when they are asked for. -/
def madeMember (id : Nat) (o : Object Value) (name : String) : Operation (Option Value) := do
  match o, name with
  | .recordingDocument r, "calls" => return some (← listingOf id r)
  | .error _ arguments _, "args" => return some (← make (.tuple arguments))
  | .registry r, "_constructors" => return some (← makeMap r.constructors)
  | _, _ => return none

/-- What a name leads to. -/
def find (v : Value) (name : String) : Operation (Found Value) := do
  match v with
  | .atom a => ofExcept (Found.map .atom <$> a.find name)
  | .ref id =>
    match ← get? id with
    | none => fail .missingMember
    | some o =>
      match ← madeMember id o name with
      | some part => return .part part
      | none => ofExcept (o.find .atom name)

/-- The value that was found under a name; a skill is an object that shows nothing of itself. -/
def foundValue (name : String) : Found Value → Operation Value
  | .part part => return part
  | .skill => make (.stranger name [])

/-- The value that a name leads to. -/
def member (v : Value) (name : String) : Operation Value := do
  foundValue name (← find v name)

/-- The items that a value holds now. -/
def itemsOf (v : Value) : Operation (List Value) := do
  return values (← ofExcept (← read v).items)

/-- The items that a value holds now, in a list of their own. -/
def listedItems (v : Value) : Operation (List Value) := do
  return values (← ofExcept (← read v).listed)

/-! ## Going through items -/

variable {m : Type → Type} [Monad m] [MonadLiftT Operation m] {β : Type}

/-- The answers for the items from a place on, and for those that are added meanwhile. -/
def answersFrom (answer : Value → m β) (holder : Value) : Nat → Nat → m (List β)
  | 0, _ => return []
  | rounds + 1, place => do
    let items := (← itemsOf holder).drop place
    if items.isEmpty then return []
    let known ← items.mapM answer
    return known ++ (← answersFrom answer holder rounds (place + items.length))

/--
The answers for the items of a value in order, each item being taken when its turn comes: what an
answer adds to a list at its end is reached too.
-/
def answersOf (answer : Value → m β) (holder : Value) : m (List β) := do
  match holder with
  | .atom (.range p) => p.answers fun i => answer (.int i)
  | holder => answersFrom answer holder (← depthBound) 0

/-- Does something with each item of a value in order, each being taken when its turn comes. -/
def eachItem (act : Value → m Unit) (holder : Value) : m Unit :=
  discard <| answersOf act holder

end Markup.Operation
