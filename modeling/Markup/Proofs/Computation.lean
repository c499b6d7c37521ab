import Markup.Store
import Mathlib.Data.List.Forall2

/-!
# Computations that succeed

How a computation goes on after a part of which the answer is known.  Every later proof that a
reading, a writing or an operation succeeds takes its parts in turn by these rules.
-/

namespace Markup

section Answers

variable {ε α β : Type}

@[simp] theorem ok_bind (a : α) (k : α → Except ε β) : (Except.ok a >>= k) = k a := rfl

@[simp] theorem pure_eq_ok (a : α) : (pure a : Except ε α) = .ok a := rfl

/-- What succeeds as a whole has a first part that succeeds. -/
theorem ok_of_bind {x : Except ε α} {k : α → Except ε β} {b : β} (h : (x >>= k) = .ok b) :
    ∃ a, x = .ok a ∧ k a = .ok b := by
  cases x with
  | error e => cases h
  | ok a => exact ⟨a, rfl, h⟩

/-- What the step of each item preserves holds of what the last one answers. -/
theorem foldlM_preserves {p : β → Prop} {f : β → α → Except ε β} {items : List α}
    (hstep : ∀ b, ∀ a ∈ items, ∀ b', p b → f b a = .ok b' → p b') {b b' : β} (hb : p b)
    (h : items.foldlM f b = .ok b') : p b' := by
  induction items generalizing b with
  | nil =>
    cases h
    exact hb
  | cons a items ih =>
    rw [List.foldlM_cons] at h
    obtain ⟨c, hc, hrest⟩ := ok_of_bind h
    exact ih (fun b a ha => hstep b a (List.mem_cons_of_mem _ ha))
      (hstep b a List.mem_cons_self c hb hc) hrest

/-- Where each item has an answer, the answers are collected in order. -/
theorem mapM_eq_ok {f : α → Except ε β} {g : α → β} {items : List α}
    (h : ∀ a ∈ items, f a = .ok (g a)) : items.mapM f = .ok (items.map g) := by
  induction items with
  | nil => rfl
  | cons a items ih =>
    have ha : f a = .ok (g a) := h a List.mem_cons_self
    have hrest := ih fun b hb => h b (List.mem_cons_of_mem a hb)
    rw [List.mapM_cons, ha, hrest]
    rfl

/-- Where each item has some answer, so have all together. -/
theorem exists_mapM_eq_ok {f : α → Except ε β} {items : List α}
    (h : ∀ a ∈ items, ∃ b, f a = .ok b) : ∃ bs, items.mapM f = .ok bs := by
  induction items with
  | nil => exact ⟨[], rfl⟩
  | cons a items ih =>
    obtain ⟨b, hb⟩ := h a List.mem_cons_self
    obtain ⟨bs, hbs⟩ := ih fun c hc => h c (List.mem_cons_of_mem a hc)
    refine ⟨b :: bs, ?_⟩
    rw [List.mapM_cons, hb, hbs]
    rfl

/-- Where all items have answers, they correspond in order. -/
theorem forall₂_of_mapM_eq_ok {f : α → Except ε β} {items : List α} {bs : List β}
    (h : items.mapM f = .ok bs) : List.Forall₂ (fun a b => f a = .ok b) items bs := by
  induction items generalizing bs with
  | nil =>
    cases h
    exact .nil
  | cons a items ih =>
    rw [List.mapM_cons] at h
    obtain ⟨b, hb, h⟩ := ok_of_bind h
    obtain ⟨rest, hrest, h⟩ := ok_of_bind h
    cases h
    exact .cons hb (ih hrest)

/-- What corresponds to something is among the items. -/
theorem exists_mem_of_forall₂ {R : α → β → Prop} {items : List α} {bs : List β}
    (h : List.Forall₂ R items bs) {b : β} (hb : b ∈ bs) : ∃ a ∈ items, R a b := by
  induction h with
  | nil => cases hb
  | @cons a c _ _ hac _ ih =>
    rcases List.mem_cons.mp hb with rfl | hb
    · exact ⟨a, List.mem_cons_self, hac⟩
    · obtain ⟨d, hd, hdb⟩ := ih hb
      exact ⟨d, List.mem_cons_of_mem a hd, hdb⟩

end Answers

namespace Operation

variable {α β : Type}

/-- After a part that answered, the rest runs in the world which that part left. -/
theorem runIn_bind_ok {x : Operation α} {k : α → Operation β} {a : α} {w w' : World}
    (h : x.runIn w = (.ok a, w')) : (x >>= k).runIn w = (k a).runIn w' := by
  rw [runIn_bind, h]

/-- After a part that failed, the rest is not run. -/
theorem runIn_bind_error {x : Operation α} {k : α → Operation β} {f : Fault} {w w' : World}
    (h : x.runIn w = (.error f, w')) : (x >>= k).runIn w = (.error f, w') := by
  rw [runIn_bind, h]

/-- An operation that succeeds has a first part that succeeds. -/
theorem ok_of_runIn_bind {x : Operation α} {k : α → Operation β} {b : β} {w w' : World}
    (h : (x >>= k).runIn w = (.ok b, w')) :
    ∃ a w₁, x.runIn w = (.ok a, w₁) ∧ (k a).runIn w₁ = (.ok b, w') := by
  rw [runIn_bind] at h
  rcases hx : x.runIn w with ⟨r, w₁⟩
  rw [hx] at h
  cases r with
  | error e => cases h
  | ok a => exact ⟨a, w₁, rfl, h⟩

/-- A fault is handled in the world that the failing part left. -/
theorem runIn_tryCatch (x : Operation α) (handle : Fault → Operation α) (w : World) :
    (tryCatch x handle).runIn w =
      match x.runIn w with
      | (.ok a, w) => (.ok a, w)
      | (.error f, w) => (handle f).runIn w := by
  simp only [runIn, tryCatch, tryCatchThe, MonadExceptOf.tryCatch, ExceptT.tryCatch, ExceptT.mk,
    ExceptT.run, StateT.run_bind]
  rcases StateT.run x w with ⟨r, w'⟩
  cases r <;> rfl

/-- A run with a known answer. -/
theorem runIn_of_fst {x : Operation α} {r : Except Fault α} {w : World}
    (h : (x.runIn w).1 = r) : x.runIn w = (r, (x.runIn w).2) :=
  Prod.ext h rfl

/-- An answer that is not used is left out. -/
theorem runIn_discard {x : Operation α} {a : α} {w w' : World}
    (h : x.runIn w = (.ok a, w')) : (discard x : Operation Unit).runIn w = (.ok (), w') :=
  runIn_bind_ok h

/-! ## What becomes of an operation that may fail -/

/-- An operation has an answer and leaves a world that are right, or it fails as it may. -/
def Outcome (x : Operation α) (w : World) (right : α → World → Prop)
    (failed : Fault → World → Prop) : Prop :=
  (∃ a w', x.runIn w = (.ok a, w') ∧ right a w') ∨
    ∃ f w', x.runIn w = (.error f, w') ∧ failed f w'

namespace Outcome

variable {x : Operation α} {w : World} {right : α → World → Prop}
  {failed : Fault → World → Prop}

theorem of_ok {a : α} {w' : World} (h : x.runIn w = (.ok a, w')) (ha : right a w') :
    x.Outcome w right failed := .inl ⟨a, w', h, ha⟩

theorem of_error {f : Fault} {w' : World} (h : x.runIn w = (.error f, w')) (hf : failed f w') :
    x.Outcome w right failed := .inr ⟨f, w', h, hf⟩

theorem imp {right' : α → World → Prop} {failed' : Fault → World → Prop}
    (h : x.Outcome w right failed) (hright : ∀ a w', right a w' → right' a w')
    (hfailed : ∀ f w', failed f w' → failed' f w') : x.Outcome w right' failed' := by
  rcases h with ⟨a, w', hrun, ha⟩ | ⟨f, w', hrun, hf⟩
  · exact of_ok hrun (hright a w' ha)
  · exact of_error hrun (hfailed f w' hf)

/-- If the rest becomes what it should after each right answer, so does the whole. -/
theorem bind {k : α → Operation β} {right' : β → World → Prop} {failed' : Fault → World → Prop}
    (h : x.Outcome w right failed) (hfailed : ∀ f w', failed f w' → failed' f w')
    (hk : ∀ a w', right a w' → (k a).Outcome w' right' failed') :
    (x >>= k).Outcome w right' failed' := by
  rcases h with ⟨a, w₁, hrun, ha⟩ | ⟨f, w₁, hrun, hf⟩
  · rcases hk a w₁ ha with ⟨b, w₂, hrest, hb⟩ | ⟨f, w₂, hrest, hf⟩
    · exact of_ok ((runIn_bind_ok hrun).trans hrest) hb
    · exact of_error ((runIn_bind_ok hrun).trans hrest) hf
  · exact of_error (runIn_bind_error hrun) (hfailed f w₁ hf)

/-- After a part with a known answer, what becomes of the rest becomes of the whole. -/
theorem bind_ok {k : α → Operation β} {right' : β → World → Prop} {a : α} {w' : World}
    (h : x.runIn w = (.ok a, w')) (hk : (k a).Outcome w' right' failed) :
    (x >>= k).Outcome w right' failed := by
  rwa [Outcome, runIn_bind_ok h]

theorem congr {y : Operation α} (h : x.Outcome w right failed) (hrun : y.runIn w = x.runIn w) :
    y.Outcome w right failed := by
  rwa [Outcome, hrun]

/-- What becomes of an operation does so too if its answer is not used. -/
theorem discard {after : World → Prop} (h : x.Outcome w (fun _ w' => after w') failed) :
    (discard x : Operation Unit).Outcome w (fun _ w' => after w') failed :=
  h.bind (fun _ _ hf => hf) fun _ _ hafter => of_ok rfl hafter

/-- What cannot fail has an answer. -/
theorem exists_ok (h : x.Outcome w right fun _ _ => False) :
    ∃ a w', x.runIn w = (.ok a, w') ∧ right a w' := by
  rcases h with hright | ⟨_, _, _, hfalse⟩
  · exact hright
  · exact hfalse.elim

end Outcome

end Operation

end Markup
