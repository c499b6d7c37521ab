import Markup.Checks.Outcome
import Markup.Proofs.Computation
import Mathlib.Logic.Relation

/-!
# When a check holds

`Expectation.Holds` says of an outcome that it is as expected, for each kind of expectation, without
saying how that is decided.  As long as what may have to be shown can be shown
(`Term.Presentable`), the decision comes to an end and says just that
(`Expectation.admits_iff_holds`).  For classes of errors it climbs the family tree far enough
(`ErrorClass.isA_iff_refines`).
-/

namespace Markup

/-! ## The family tree of errors -/

namespace ErrorClass

variable {c d p : ErrorClass}

/-- A class is another one, or refines a class that does. -/
def Refines : ErrorClass → ErrorClass → Prop :=
  Relation.ReflTransGen fun c p => c.parent? = some p

theorem rank_lt (h : c.parent? = some p) : p.rank < c.rank := by
  cases c <;> cases h <;> simp [rank]

theorem refines_of_mem_ancestors {steps : Nat} (h : d ∈ ancestors steps c) : c.Refines d := by
  induction steps generalizing c with
  | zero =>
    rw [List.mem_singleton.mp h]
    exact .refl
  | succ steps ih =>
    rw [ancestors] at h
    cases hp : c.parent? with
    | none =>
      rw [hp, List.mem_singleton] at h
      rw [h]
      exact .refl
    | some p =>
      rw [hp, List.mem_cons] at h
      rcases h with rfl | h
      · exact .refl
      · exact .head hp (ih h)

/-- As many steps as the rank of a class reach all classes above it. -/
theorem mem_ancestors_of_refines {steps : Nat} (h : c.Refines d) (hrank : c.rank ≤ steps) :
    d ∈ ancestors steps c := by
  induction h using Relation.ReflTransGen.head_induction_on generalizing steps with
  | refl =>
    cases steps with
    | zero => exact List.mem_singleton.mpr rfl
    | succ steps =>
      rw [ancestors]
      cases d.parent? <;> exact List.mem_cons_self
  | @head c p hp _ ih =>
    have hlt := rank_lt hp
    obtain ⟨steps, rfl⟩ :=
      Nat.exists_eq_add_of_le' (Nat.zero_lt_of_lt (Nat.lt_of_lt_of_le hlt hrank))
    rw [ancestors, hp]
    exact List.mem_cons_of_mem c (ih (by omega))

theorem isA_iff_refines : c.isA d = true ↔ c.Refines d := by
  rw [isA, List.contains_iff_mem]
  exact ⟨refines_of_mem_ancestors, fun h => mem_ancestors_of_refines h (Nat.le_refl _)⟩

end ErrorClass

/-! ## What can be shown -/

namespace Term

/-- A report can show the term. -/
def Presentable (t : Term) : Prop := ∃ s, t.quoted = .ok s

theorem presentable_of_displayAll {ts : List Term} {texts : List String}
    (h : displayAll [] ts = .ok texts) : ∀ t ∈ ts, t.Presentable := by
  induction ts generalizing texts with
  | nil => exact List.forall_mem_nil _
  | cons t ts ih =>
    rw [displayAll] at h
    obtain ⟨s, hs, h⟩ := ok_of_bind h
    obtain ⟨rest, hrest, -⟩ := ok_of_bind h
    exact List.forall_mem_cons.mpr ⟨⟨s, hs⟩, ih hrest⟩

/-- The arguments of an error that can be shown can be shown. -/
theorem Presentable.of_error {id : Nat} {c : ErrorClass} {arguments : List Term}
    {extras : List (String × Term)} (h : Presentable (.object id (.error c arguments extras))) :
    ∀ t ∈ arguments, t.Presentable := by
  obtain ⟨s, hs⟩ := h
  rw [quoted, display] at hs
  obtain ⟨texts, htexts, -⟩ := ok_of_bind hs
  exact presentable_of_displayAll htexts

end Term

/-! ## Verdicts -/

namespace Checks

namespace Expectation

/--
An outcome is as expected: an equal value, a value with the expected text, equal items, or an error
that has the expected text, is of the expected class, or has the class and equal arguments of the
expected error.
-/
inductive Holds : Expectation → Outcome → Prop
  | value {expected v : Term} (equal : Term.eq expected v = true) :
      Holds (.value expected) (.returned v)
  | shown {s : String} {v : Term} (text : v.quoted = .ok s) :
      Holds (.shown (.text s)) (.returned v)
  | sequence {expected items : List Term} (equal : Term.allSame expected items = true) :
      Holds (.sequence expected) (.listed items)
  | errorText {s : String} {r : Raised} (text : r.toTerm.quoted = .ok s) :
      Holds (.error (.text s)) (.raised r)
  | errorClass {c : ErrorClass} {r : Raised} (refines : r.errorClass.Refines c) :
      Holds (.error (.atom (.errorClass c))) (.raised r)
  | error {id : Nat} {arguments : List Term} {extras : List (String × Term)} {r : Raised}
      (equal : Term.allSame arguments r.arguments = true) :
      Holds (.error (.object id (.error r.errorClass arguments extras))) (.raised r)

/-- Whether an error is as expected is decided where the error can be shown. -/
theorem sameError_iff_holds {expected : Term} {r : Raised} (hr : r.toTerm.Presentable) :
    ∃ b, sameError expected r.toTerm = .ok b ∧
      (b = true ↔ Holds (.error expected) (.raised r)) := by
  have hother : ∀ {expected : Term}, (∀ s, expected ≠ .text s) →
      (∀ c, expected ≠ .atom (.errorClass c)) →
      (∀ id c arguments extras, expected ≠ .object id (.error c arguments extras)) →
      ¬ Holds (.error expected) (.raised r) := by
    intro expected htext hclass herror h
    cases h with
    | errorText => exact htext _ rfl
    | errorClass => exact hclass _ rfl
    | error => exact herror _ _ _ _ rfl
  cases expected with
  | atom a =>
    cases a with
    | text s =>
      obtain ⟨text, htext⟩ := hr
      refine ⟨s == text, ?_, ?_⟩
      · rw [sameError, htext]
        rfl
      · rw [beq_iff_eq]
        refine ⟨fun heq => .errorText (heq ▸ htext), fun h => ?_⟩
        cases h with
        | errorText hs => exact Except.ok.inj (hs.symm.trans htext)
    | errorClass c =>
      refine ⟨r.errorClass.isA c, rfl, ?_⟩
      rw [ErrorClass.isA_iff_refines]
      refine ⟨.errorClass, fun h => ?_⟩
      cases h with
      | errorClass hrefines => exact hrefines
    | _ => exact ⟨false, rfl, iff_of_false Bool.false_ne_true (hother nofun nofun nofun)⟩
  | object id o =>
    cases o with
    | error c arguments extras =>
      refine ⟨c == r.errorClass && Term.allSame arguments r.arguments, rfl, ?_⟩
      rw [Bool.and_eq_true, beq_iff_eq]
      constructor
      · rintro ⟨rfl, hequal⟩
        exact .error hequal
      · intro h
        cases h with
        | error hequal => exact ⟨rfl, hequal⟩
    | _ => exact ⟨false, rfl, iff_of_false Bool.false_ne_true (hother nofun nofun nofun)⟩

/-- What came of a call is judged where it can be shown, and rightly so. -/
theorem admits_iff_holds {e : Expectation} {o : Outcome} (ho : o.toTerm.Presentable) :
    ∃ b, e.admits o = .ok b ∧ (b = true ↔ e.Holds o) := by
  cases o with
  | returned v =>
    cases e with
    | value expected =>
      refine ⟨Term.eq expected v, rfl, .value, fun h => ?_⟩
      cases h with
      | value hequal => exact hequal
    | shown expected =>
      obtain ⟨text, htext⟩ := ho
      refine ⟨Term.eq expected (.text text), ?_, ?_⟩
      · rw [admits, show v.quoted = .ok text from htext]
        rfl
      · rw [Term.eq_text_iff]
        refine ⟨fun heq => heq ▸ .shown htext, fun h => ?_⟩
        cases h with
        | shown hs => rw [Except.ok.inj (hs.symm.trans htext)]
    | error expected => exact ⟨false, rfl, iff_of_false Bool.false_ne_true nofun⟩
    | sequence expected => exact ⟨false, rfl, iff_of_false Bool.false_ne_true nofun⟩
  | listed items =>
    cases e with
    | sequence expected =>
      refine ⟨Term.allSame expected items, rfl, .sequence, fun h => ?_⟩
      cases h with
      | sequence hequal => exact hequal
    | value expected => exact ⟨false, rfl, iff_of_false Bool.false_ne_true nofun⟩
    | shown expected => exact ⟨false, rfl, iff_of_false Bool.false_ne_true nofun⟩
    | error expected => exact ⟨false, rfl, iff_of_false Bool.false_ne_true nofun⟩
  | raised r =>
    cases e with
    | error expected => exact sameError_iff_holds ho
    | value expected => exact ⟨false, rfl, iff_of_false Bool.false_ne_true nofun⟩
    | shown expected => exact ⟨false, rfl, iff_of_false Bool.false_ne_true nofun⟩
    | sequence expected => exact ⟨false, rfl, iff_of_false Bool.false_ne_true nofun⟩

end Expectation

end Checks

end Markup
