import Markup.Document.Memory
import Markup.Proofs.Document.ElementTree
import Markup.Proofs.Store

/-!
# Element trees in memory

`World.Holds` says that a value is an element, with all that is below it as an `ElementTree` says,
and that every object of it lies between two numbers.  The objects of an element itself come before
those of its children, so that the objects of different elements on a stack never meet
(`World.HoldsStack`), and what is done to the element on top leaves the others alone.

The second half says what the operations of a document in memory do to a stack of elements.  None
of them changes an object that was there before the stack, and none changes a tuple
(`World.Builds`), which is all that a document that records has to know about them.
-/

namespace Markup

/-! ## What an element holds -/

/-- Where the objects of an element are. -/
structure Cells where
  element : Nat
  attributes : Nat
  listeners : Nat
  childNodes : Nat
  /-- The list of the listeners of each event. -/
  rows : Entries String Nat

/-- All objects of an element. -/
def Cells.all (c : Cells) : List Nat :=
  c.element :: c.attributes :: c.listeners :: c.childNodes :: c.rows.map (·.2)

/-- An element of a document as an object. -/
def ElementParts.object (p : ElementParts) (d : Nat) (c : Cells) : Object Value :=
  .element {
    document := .ref d, name := .text p.name, isVoid := .bool p.isVoid, id := .text p.id,
    className := .text p.className, attributes := .ref c.attributes,
    listeners := .ref c.listeners, childNodes := .ref c.childNodes, extras := [] }

namespace World

/-- The lists of listeners, one under each event. -/
def HoldsRows (w : World) (rows : Entries String Nat) (listeners : Entries String (List Value)) :
    Prop :=
  List.Forall₂ (fun r l => r.1 = l.1 ∧ w.objects[r.2]? = some (.list l.2)) rows listeners

/-- An element of a document has the given parts and children, and its objects are distinct. -/
structure HoldsParts (w : World) (d : Nat) (c : Cells) (p : ElementParts)
    (children : List Value) : Prop where
  element : w.objects[c.element]? = some (p.object d c)
  attributes : w.objects[c.attributes]? = some (.map (p.attributes.stored .text .text))
  listeners : w.objects[c.listeners]? = some (.map (c.rows.stored .text .ref))
  rows : w.HoldsRows c.rows p.listeners
  childNodes : w.objects[c.childNodes]? = some (.list children)
  nodup : c.all.Nodup

mutual

/-- A value is an element of a document with all below it, its objects between two numbers. -/
def Holds (w : World) (d : Nat) : Nat → Nat → Value → ElementTree → Prop
  | lo, hi, v, .text s =>
    ∃ id, v = .ref id ∧ lo ≤ id ∧ id < hi ∧ w.objects[id]? = some (.textNode (.text s) [])
  | lo, hi, v, .element p children =>
    ∃ c mid vs, v = .ref c.element ∧ (∀ i ∈ c.all, lo ≤ i ∧ i < mid) ∧ w.HoldsParts d c p vs ∧
      HoldsAll w d mid hi vs children

/-- Some values are elements of a document, the objects of each after those of the one before. -/
def HoldsAll (w : World) (d : Nat) : Nat → Nat → List Value → List ElementTree → Prop
  | lo, hi, vs, [] => vs = [] ∧ lo ≤ hi
  | lo, hi, vs, t :: ts =>
    ∃ v rest mid, vs = v :: rest ∧ Holds w d lo mid v t ∧ HoldsAll w d mid hi rest ts

end

/-- Elements on a stack, the objects of each after those of the ones below. -/
def HoldsStack (w : World) (d lo : Nat) : Nat → List (Value × ElementTree) → Prop
  | hi, [] => lo ≤ hi
  | hi, (v, t) :: stack => ∃ mid, w.Holds d mid hi v t ∧ HoldsStack w d lo mid stack

variable {w w' : World} {d lo hi hi' : Nat} {v : Value} {c : Cells} {p : ElementParts}
  {vs : List Value} {t : ElementTree} {ts : List ElementTree} {stack : List (Value × ElementTree)}

/-! ## Bounds -/

theorem HoldsAll.le_of (hts : ∀ t ∈ ts, ∀ {lo hi v}, w.Holds d lo hi v t → lo ≤ hi)
    (h : w.HoldsAll d lo hi vs ts) : lo ≤ hi := by
  induction ts generalizing lo vs with
  | nil => exact h.2
  | cons t ts ih =>
    obtain ⟨v, rest, mid, -, hv, hrest⟩ := h
    have hfirst := hts t List.mem_cons_self hv
    have hlater := ih (fun u hu => hts u (List.mem_cons_of_mem t hu)) hrest
    omega

theorem Holds.le (h : w.Holds d lo hi v t) : lo ≤ hi := by
  induction t generalizing v lo hi with
  | text s =>
    obtain ⟨id, -, hlo, hhi, -⟩ := h
    omega
  | element p children ih =>
    obtain ⟨c, mid, vs, -, hall, -, hbelow⟩ := h
    have hmid := hall c.element List.mem_cons_self
    have hle := hbelow.le_of fun t ht _ _ _ => ih t ht
    omega

theorem HoldsAll.le (h : w.HoldsAll d lo hi vs ts) : lo ≤ hi := h.le_of fun _ _ _ _ _ => Holds.le

/-- There is at least one object in an element. -/
theorem Holds.lt (h : w.Holds d lo hi v t) : lo < hi := by
  cases t with
  | text s =>
    obtain ⟨id, -, hlo, hhi, -⟩ := h
    omega
  | element p children =>
    obtain ⟨c, mid, vs, -, hall, -, hbelow⟩ := h
    have hmid := hall c.element List.mem_cons_self
    have hle := hbelow.le
    omega

theorem HoldsAll.mono (h : w.HoldsAll d lo hi vs ts) (hle : hi ≤ hi') :
    w.HoldsAll d lo hi' vs ts := by
  induction ts generalizing lo vs with
  | nil => exact ⟨h.1, Nat.le_trans h.2 hle⟩
  | cons t ts ih =>
    obtain ⟨v, rest, mid, hvs, hv, hrest⟩ := h
    exact ⟨v, rest, mid, hvs, hv, ih hrest⟩

/-- More room before an element does no harm. -/
theorem Holds.lower (h : w.Holds d lo hi v t) {lo' : Nat} (hle : lo' ≤ lo) :
    w.Holds d lo' hi v t := by
  cases t with
  | text s =>
    obtain ⟨id, hv, hlo, hhi, hid⟩ := h
    exact ⟨id, hv, Nat.le_trans hle hlo, hhi, hid⟩
  | element p children =>
    obtain ⟨c, mid, vs, hv, hall, hparts, hbelow⟩ := h
    exact ⟨c, mid, vs, hv, fun i hi => ⟨Nat.le_trans hle (hall i hi).1, (hall i hi).2⟩, hparts,
      hbelow⟩

theorem Holds.mono (h : w.Holds d lo hi v t) (hle : hi ≤ hi') : w.Holds d lo hi' v t := by
  cases t with
  | text s =>
    obtain ⟨id, hv, hlo, hhi, hid⟩ := h
    exact ⟨id, hv, hlo, Nat.lt_of_lt_of_le hhi hle, hid⟩
  | element p children =>
    obtain ⟨c, mid, vs, hv, hall, hparts, hbelow⟩ := h
    exact ⟨c, mid, vs, hv, hall, hparts, hbelow.mono hle⟩

theorem HoldsStack.mono (h : w.HoldsStack d lo hi stack) (hle : hi ≤ hi') :
    w.HoldsStack d lo hi' stack := by
  cases stack with
  | nil => exact Nat.le_trans h hle
  | cons top stack =>
    obtain ⟨mid, htop, hrest⟩ := h
    exact ⟨mid, htop.mono hle, hrest⟩

/-- One more element comes after those that are there. -/
theorem HoldsAll.append (h : w.HoldsAll d lo hi vs ts) (hv : w.Holds d hi hi' v t) :
    w.HoldsAll d lo hi' (vs ++ [v]) (ts ++ [t]) := by
  induction ts generalizing lo vs with
  | nil =>
    obtain ⟨rfl, hle⟩ := h
    exact ⟨v, [], hi', rfl, hv.lower hle, rfl, Nat.le_refl _⟩
  | cons u ts ih =>
    obtain ⟨x, rest, mid, rfl, hx, hrest⟩ := h
    exact ⟨x, rest ++ [v], mid, rfl, hx, ih hrest⟩

/-! ## What does not concern an element -/

theorem HoldsRows.frame {rows : Entries String Nat} {listeners : Entries String (List Value)}
    (h : w.HoldsRows rows listeners)
    (hsame : ∀ r ∈ rows, w'.objects[r.2]? = w.objects[r.2]?) : w'.HoldsRows rows listeners := by
  refine ((List.forall₂_and_left _ _).mpr ⟨hsame, h⟩).imp ?_
  rintro r l ⟨hr, hname, hlist⟩
  exact ⟨hname, hr.trans hlist⟩

theorem HoldsParts.frame (h : w.HoldsParts d c p vs)
    (hsame : ∀ i ∈ c.all, w'.objects[i]? = w.objects[i]?) : w'.HoldsParts d c p vs where
  element := (hsame _ (by simp [Cells.all])).trans h.element
  attributes := (hsame _ (by simp [Cells.all])).trans h.attributes
  listeners := (hsame _ (by simp [Cells.all])).trans h.listeners
  rows := h.rows.frame fun r hr => hsame r.2 (by
    simp only [Cells.all, List.mem_cons, List.mem_map]
    exact .inr (.inr (.inr (.inr ⟨r, hr, rfl⟩))))
  childNodes := (hsame _ (by simp [Cells.all])).trans h.childNodes
  nodup := h.nodup

theorem HoldsAll.frame_of (hts : ∀ t ∈ ts, ∀ {lo' hi' v}, lo ≤ lo' → hi' ≤ hi →
      w.Holds d lo' hi' v t → w'.Holds d lo' hi' v t) (h : w.HoldsAll d lo hi vs ts) :
    w'.HoldsAll d lo hi vs ts := by
  induction ts generalizing lo vs with
  | nil => exact h
  | cons t ts ih =>
    obtain ⟨v, rest, mid, rfl, hv, hrest⟩ := h
    have hlo := hv.le
    have hhi := hrest.le
    refine ⟨v, rest, mid, rfl, hts t List.mem_cons_self (Nat.le_refl lo) hhi hv, ih ?_ hrest⟩
    intro u hu lo' hi' v hlo' hhi'
    exact hts u (List.mem_cons_of_mem t hu) (Nat.le_trans hlo hlo') hhi'

/-- An element stays what it is where its objects stay what they are. -/
theorem Holds.frame (hsame : ∀ i, lo ≤ i → i < hi → w'.objects[i]? = w.objects[i]?)
    (h : w.Holds d lo hi v t) : w'.Holds d lo hi v t := by
  induction t generalizing v lo hi with
  | text s =>
    obtain ⟨id, hv, hlo, hhi, hid⟩ := h
    exact ⟨id, hv, hlo, hhi, (hsame id hlo hhi).trans hid⟩
  | element p children ih =>
    obtain ⟨c, mid, vs, hv, hall, hparts, hbelow⟩ := h
    have hmid := hall c.element List.mem_cons_self
    have hhi := hbelow.le
    refine ⟨c, mid, vs, hv, hall, hparts.frame fun i hi => ?_, hbelow.frame_of ?_⟩
    · exact hsame i (hall i hi).1 (Nat.lt_of_lt_of_le (hall i hi).2 hhi)
    · intro t ht lo' hi' v hlo' hhi'
      exact ih t ht fun i hi₁ hi₂ => hsame i (by omega) (by omega)

theorem HoldsAll.frame (hsame : ∀ i, lo ≤ i → i < hi → w'.objects[i]? = w.objects[i]?)
    (h : w.HoldsAll d lo hi vs ts) : w'.HoldsAll d lo hi vs ts :=
  h.frame_of fun _ _ _ _ _ hlo hhi => Holds.frame fun i h₁ h₂ => hsame i (by omega) (by omega)

theorem HoldsStack.le (h : w.HoldsStack d lo hi stack) : lo ≤ hi := by
  induction stack generalizing hi with
  | nil => exact h
  | cons top stack ih =>
    obtain ⟨mid, htop, hrest⟩ := h
    exact Nat.le_trans (ih hrest) htop.le

theorem HoldsStack.frame (hsame : ∀ i, lo ≤ i → i < hi → w'.objects[i]? = w.objects[i]?)
    (h : w.HoldsStack d lo hi stack) : w'.HoldsStack d lo hi stack := by
  induction stack generalizing hi with
  | nil => exact h
  | cons top stack ih =>
    obtain ⟨mid, htop, hrest⟩ := h
    have hlo := hrest.le
    have hhi := htop.le
    exact ⟨mid, htop.frame fun i h₁ h₂ => hsame i (by omega) h₂,
      ih (fun i h₁ h₂ => hsame i h₁ (by omega)) hrest⟩

/-! ## What building elements does to a world -/

/-- Objects that were there at first stay as they are, and so does every tuple. -/
structure Builds (old : Nat) (w w' : World) : Prop where
  size_le : w.objects.size ≤ w'.objects.size
  kept : ∀ i < old, w'.objects[i]? = w.objects[i]?
  tuples : ∀ (i : Nat) (items : List Value), w.objects[i]? = some (Object.tuple items) →
    w'.objects[i]? = some (Object.tuple items)

theorem Builds.trans {old : Nat} {w₁ w₂ w₃ : World} (h₁ : Builds old w₁ w₂)
    (h₂ : Builds old w₂ w₃) : Builds old w₁ w₃ where
  size_le := Nat.le_trans h₁.size_le h₂.size_le
  kept i hi := (h₂.kept i hi).trans (h₁.kept i hi)
  tuples i items h := h₂.tuples i items (h₁.tuples i items h)

theorem builds_add {old : Nat} (h : old ≤ w.objects.size) (o : Object Value) :
    Builds old w (w.add o) where
  size_le := by simp
  kept i hi := get_add_old (Nat.lt_of_lt_of_le hi h)
  tuples _ _ h := get_add h

/-- Replacing an object that was made later and is no tuple. -/
theorem builds_replace {old id : Nat} {o : Object Value} (hid : old ≤ id)
    (hget : w.objects[id]? = some o) (hother : ∀ items, o ≠ .tuple items) (o' : Object Value) :
    Builds old w (w.replace id o') where
  size_le := by simp
  kept i hi := get_replace_ne (by omega)
  tuples i items h := by
    have hne : i ≠ id := by
      rintro rfl
      exact hother items (Option.some.inj (hget.symm.trans h))
    rw [get_replace_ne hne, h]

end World

end Markup
