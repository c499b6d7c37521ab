/-!
# Entries in order of insertion

A map is the list of its entries in the order in which their keys were first set.  Setting a
key again keeps its place, and its first spelling, and changes the value.  Keys are compared by
`==`, which need not be equality: a key type may identify more.
-/

namespace Markup

/-- A map that remembers the order of insertion. -/
abbrev Entries (κ β : Type) : Type := List (κ × β)

namespace Entries

variable {κ β : Type}

/-- The keys in order. -/
def keys (m : Entries κ β) : List κ := m.map (·.1)

@[simp] theorem keys_cons (e : κ × β) (m : Entries κ β) : keys (e :: m) = e.1 :: keys m := rfl

variable [BEq κ]

/-- The value of a key. -/
def get? (m : Entries κ β) (k : κ) : Option β := (m.find? (·.1 == k)).map (·.2)

@[simp] theorem get?_nil (k : κ) : get? ([] : Entries κ β) k = none := rfl

theorem get?_cons (e : κ × β) (m : Entries κ β) (k : κ) :
    get? (e :: m) k = if e.1 == k then some e.2 else get? m k := by
  by_cases h : e.1 == k <;> simp [get?, h]

/-- Whether a key is set. -/
def has (m : Entries κ β) (k : κ) : Bool := m.any (·.1 == k)

@[simp] theorem has_nil (k : κ) : has ([] : Entries κ β) k = false := rfl

@[simp] theorem has_cons (e : κ × β) (m : Entries κ β) (k : κ) :
    has (e :: m) k = (e.1 == k || has m k) := by simp [has]

/-- Applies `f` to the value of `k` in its place, or appends `k` with the value `start`. -/
def alter (m : Entries κ β) (k : κ) (start : β) (f : β → β) : Entries κ β :=
  match m with
  | [] => [(k, start)]
  | (k', v) :: m => if k' == k then (k', f v) :: m else (k', v) :: alter m k start f

/-- Altering keeps the keys, or adds the new one at the end. -/
theorem keys_alter (m : Entries κ β) (k : κ) (start : β) (f : β → β) :
    keys (m.alter k start f) = if m.has k then keys m else keys m ++ [k] := by
  induction m with
  | nil => rfl
  | cons e m ih =>
    by_cases h : e.1 == k
    · simp [alter, h]
    · rw [alter, if_neg h, keys_cons, ih]
      by_cases hk : has m k <;> simp [h, hk]

/-- Sets a key: in its place if it is there, else at the end. -/
def set (m : Entries κ β) (k : κ) (v : β) : Entries κ β := m.alter k v fun _ => v

/-- Sets all entries of another map, in its order. -/
def update (m later : Entries κ β) : Entries κ β := later.foldl (fun m e => m.set e.1 e.2) m

@[simp] theorem update_nil (m : Entries κ β) : m.update [] = m := rfl

theorem update_append (m a b : Entries κ β) : m.update (a ++ b) = (m.update a).update b := by
  simp [update]

/-- Appends to the list of a key. -/
def extend (m : Entries κ (List β)) (k : κ) (vs : List β) : Entries κ (List β) :=
  m.alter k vs (· ++ vs)

/-- Appends all lists of another map, in its order. -/
def extendAll (m later : Entries κ (List β)) : Entries κ (List β) :=
  later.foldl (fun m e => m.extend e.1 e.2) m

@[simp] theorem extendAll_nil (m : Entries κ (List β)) : m.extendAll [] = m := rfl

/-- The map with the given entries, a repeated key keeping its place and its last value. -/
def ofList (es : List (κ × β)) : Entries κ β := update [] es

/-- The entries in the order of their keys. -/
def sorted {β : Type} (m : Entries String β) : Entries String β :=
  m.mergeSort fun a b => decide (a.1 ≤ b.1)

end Entries

end Markup
