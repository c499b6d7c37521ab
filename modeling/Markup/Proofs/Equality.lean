import Markup.Term.Equality
import Mathlib.Data.List.Forall2

/-!
# Terms that are equal

A term is the same as itself (`Term.same_self`), though it need not equal itself.  Sequences are
equal where their items are the same in order (`Term.allSame_of_forall₂`), and maps are equal where
their keys are the same atoms and the values are the same in order (`Term.eq_map_entriesOf`).
-/

namespace Markup

namespace Term

@[simp] theorem identical_self (t : Term) : identical t t = true := by
  cases t <;> simp [identical]

@[simp] theorem same_self (t : Term) : same t t = true := by simp [same]

theorem allSame_of_forall₂ {xs ys : List Term}
    (h : List.Forall₂ (fun x y => same x y = true) xs ys) : allSame xs ys = true := by
  induction h with
  | nil => rw [allSame]
  | cons hxy _ ih =>
    rw [allSame, ih, Bool.and_true]
    exact hxy

/-- Every item of a list is among the items of it. -/
theorem allAmong_of_subset {xs ys : List Term} (h : xs ⊆ ys) : allAmong ys xs = true := by
  induction xs with
  | nil => rw [allAmong]
  | cons x xs ih =>
    rw [List.cons_subset] at h
    rw [allAmong, ih h.2, Bool.and_true]
    exact List.any_eq_true.mpr ⟨x, h.1, same_self x⟩

theorem same_atoms (a b : Atom) : same (.atom a) (.atom b) = a.eq b := by
  rw [same, identical, eq]
  by_cases h : a = b
  · subst h
    simp
  · simp [h]

/-- Entries with atoms for keys. -/
def entriesOf (keys : List Atom) (ts : List Term) : List (Term × Term) :=
  (keys.map Term.atom).zip ts

/-- No key equals an earlier one. -/
def Distinct (keys : List Atom) : Prop := keys.Pairwise fun a b => b.eq a = false

/-- Where no key equals another one, an entry is found under its key. -/
theorem find?_entriesOf {keys : List Atom} {ts : List Term} (hdistinct : Distinct keys)
    {e : Term × Term} (he : e ∈ entriesOf keys ts) :
    (entriesOf keys ts).find? (fun f => same e.1 f.1) = some e := by
  induction keys generalizing ts with
  | nil => cases he
  | cons k keys ih =>
    cases ts with
    | nil => cases he
    | cons t ts =>
      obtain ⟨hfirst, hrest⟩ := List.pairwise_cons.mp hdistinct
      rcases List.mem_cons.mp he with rfl | he
      · exact List.find?_cons_of_pos (same_self _)
      · have hne : ¬ same e.1 (.atom k) = true := by
          obtain ⟨k', hk', hkey⟩ := List.mem_map.mp (List.of_mem_zip he).1
          rw [← hkey, same_atoms, hfirst k' hk']
          exact Bool.false_ne_true
        have hnext : (entriesOf (k :: keys) (t :: ts)).find? (fun f => same e.1 f.1) =
            (entriesOf keys ts).find? (fun f => same e.1 f.1) := List.find?_cons_of_neg hne
        rw [hnext, ih hrest he]

/-- Values that are the same in order are so under each key. -/
theorem exists_mem_entriesOf {keys : List Atom} {xs ys : List Term}
    (h : List.Forall₂ (fun x y => same x y = true) xs ys) {e : Term × Term}
    (he : e ∈ entriesOf keys xs) : ∃ y, (e.1, y) ∈ entriesOf keys ys ∧ same e.2 y = true := by
  induction h generalizing keys with
  | nil => cases keys <;> cases he
  | @cons x y xs ys hxy _ ih =>
    cases keys with
    | nil => cases he
    | cons k keys =>
      rcases List.mem_cons.mp he with rfl | hrest
      · exact ⟨y, List.mem_cons_self, hxy⟩
      · obtain ⟨y', hy', hsame⟩ := ih hrest
        exact ⟨y', List.mem_cons_of_mem _ hy', hsame⟩

theorem allFound_of_forall {fs es : List (Term × Term)}
    (h : ∀ e ∈ es, ∃ f, fs.find? (fun f => same e.1 f.1) = some f ∧ same e.2 f.2 = true) :
    allFound fs es = true := by
  induction es with
  | nil => rw [allFound]
  | cons e es ih =>
    obtain ⟨⟨f, hf, hsame⟩, hrest⟩ := List.forall_mem_cons.mp h
    have hfound : fs.find? (fun f => identical e.1 f.1 || eq e.1 f.1) = some f := hf
    rw [allFound, ih hrest, Bool.and_true, hfound]
    exact hsame

/-- Maps with the same atoms for keys are equal where their values are the same in order. -/
theorem eq_map_entriesOf {i j : Nat} {keys : List Atom} {xs ys : List Term}
    (hdistinct : Distinct keys) (h : List.Forall₂ (fun x y => same x y = true) xs ys) :
    eq (.map i (entriesOf keys xs)) (.map j (entriesOf keys ys)) = true := by
  have hlength : (entriesOf keys xs).length = (entriesOf keys ys).length := by
    rw [entriesOf, entriesOf, List.length_zip, List.length_zip, h.length_eq]
  rw [eq, hlength, beq_self_eq_true, Bool.true_and]
  refine allFound_of_forall fun e he => ?_
  obtain ⟨y, hy, hsame⟩ := exists_mem_entriesOf h he
  exact ⟨(e.1, y), find?_entriesOf hdistinct hy, hsame⟩

end Term

end Markup
