import Markup.Term.Display

/-!
# Items

What can be asked of anything that holds items: whether something is among them, and which one is
held at a position or under a key.  Positions are whole numbers, and a negative one counts from
the end.  Keys have to be such that they cannot change.
-/

namespace Markup

/-- The place that a position means among `count` items, if it is one of them. -/
def placeOf? (count : Nat) (position : Int) : Option Nat :=
  let place := if position < 0 then position + count else position
  if 0 ≤ place ∧ place < count then some place.toNat else none

namespace Term

/-- The whole number that a term is, truth values counting as `0` and `1`. -/
def toInt? : Term → Option Int
  | .atom a => a.toInt?
  | _ => .none

/-- The whole number that a term equals, if it equals one. -/
def whole? : Term → Option Int
  | .atom (.float x) => x.floor?.filter x.eqInt
  | t => t.toInt?

/-- The byte that a term is. -/
def toByte (t : Term) : Except Fault UInt8 :=
  match t.toInt? with
  | .none => .error .unsuitable
  | some i => if 0 ≤ i ∧ i < 256 then .ok (UInt8.ofNat i.toNat) else .error .outOfBounds

/-- The bytes of a sequence of bytes. -/
def bytes? : Term → Option (List UInt8)
  | .atom (.bytes bs) => some bs
  | .object _ (.buffer bs) => some bs
  | _ => .none

/-- A text cut to a limit, which may be any value; only whole numbers cut. -/
def cutBy (limit : Term) (s : String) : Except Fault String :=
  match limit.toInt?, limit with
  | some n, _ => .ok (cutTo n s)
  | _, .atom (.float x) => if x.isAtLeast s.length then .ok s else .error .unsuitable
  | _, _ => .error .unsuitable

/-- Whether one list stands somewhere in another one. -/
def stands {α : Type} [BEq α] (part : List α) : List α → Bool
  | [] => part.isEmpty
  | c :: cs => part.isPrefixOf (c :: cs) || stands part cs

/-- A key, which has to be such that it cannot change. -/
def asKey (key : Term) : Except Fault Term :=
  if key.hashable then .ok key else .error .unsuitable

/-- Whether some bytes hold a byte, or bytes one after the other. -/
def bytesContain (bs : List UInt8) (item : Term) : Except Fault Bool :=
  match item.bytes? with
  | some part => .ok (stands part bs)
  | .none => do return bs.contains (← item.toByte)

/-- Whether a progression holds something, which has to equal one of its numbers. -/
def progressionContains (p : Progression) (item : Term) : Bool :=
  (item.whole?.bind p.place?).isSome

/-- Whether something is among the items of a term. -/
def contains (t item : Term) : Except Fault Bool :=
  match t with
  | .list _ items => .ok (items.any (· == item))
  | .tuple _ items => .ok (items.any (· == item))
  | .map _ entries => do return Entries.has entries (← item.asKey)
  | .object _ (.frozenSet items) => do
    let key ← item.asKey
    return items.any (· == key)
  | .object _ (.registry r) => do return Entries.has r.constructors (← item.asKey)
  | .text s =>
    match item with
    | .text part => .ok (stands part.toList s.toList)
    | _ => .error .unsuitable
  | .atom (.bytes bs) => bytesContain bs item
  | .object _ (.buffer bs) => bytesContain bs item
  | .atom (.range p) => .ok (progressionContains p item)
  | _ => .error .unsuitable

/-- The fault of a key that nothing is held under. -/
def missing (key : Term) : Fault :=
  match key.quoted with
  | .ok shown => .missingKey key.toValue shown
  | .error f => f

/-- What is held under a key. -/
def underKey (entries : List (Term × Term)) (key : Term) : Except Fault Term := do
  match Entries.get? entries (← key.asKey) with
  | some held => return held
  | .none => throw key.missing

/-- What is held at a position. -/
def atPosition (count : Nat) (get : Nat → Option Term) (position : Term) : Except Fault Term :=
  match position.toInt? with
  | .none => .error .unsuitable
  | some i =>
    match (placeOf? count i).bind get with
    | some held => .ok held
    | .none => .error .outOfRange

/-- What a term holds at a position or under a key. -/
def item (t key : Term) : Except Fault Term :=
  match t with
  | .list _ items => atPosition items.length (items[·]?) key
  | .tuple _ items => atPosition items.length (items[·]?) key
  | .map _ entries => underKey entries key
  | .object _ (.registry r) => underKey r.constructors key
  | .text s =>
    let cs := s.toList
    atPosition cs.length (fun i => cs[i]?.map fun c => .text (String.singleton c)) key
  | .atom (.range p) =>
    atPosition p.length (fun i => some (.atom (.int (p.nth i)))) key
  | t =>
    match t.bytes? with
    | some bs => atPosition bs.length (fun i => bs[i]?.map fun b => .atom (.int b.toNat)) key
    | .none => .error .unsuitable

end Term

end Markup
