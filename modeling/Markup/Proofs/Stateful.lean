import Markup.Access
import Markup.Proofs.Computation

/-!
# Computations with a state of their own

An operation runs in a world.  What runs in a world and in a state of its own beside it
(`Walking`) is run in the same way, and operations can be run in it.  Going through items as they
come is told once for all of these (`Stateful.runIn_answersFrom`): as long as the items stay the
same, each is answered once.  Whatever becomes of the items, what is true of each answer is true of
all together if it stays true when one operation follows another (`Operation.Closed.answersOf`), as
it does for a relation between the worlds before and after (`Operation.closed_moves`).
-/

namespace Markup

/-- What runs in a state and may fail; an operation is what runs in a world. -/
abbrev Stateful (S α : Type) : Type := ExceptT Fault (StateM S) α

/-- What runs in a world and in a state of its own beside it. -/
abbrev Walking (σ α : Type) : Type := Stateful (σ × World) α

namespace Stateful

variable {S α β : Type}

/-- Runs a computation: its answer or its fault, and the state that it leaves. -/
def runIn (x : Stateful S α) (s : S) : Except Fault α × S := x.run.run s

@[simp] theorem runIn_pure (a : α) (s : S) : (pure a : Stateful S α).runIn s = (.ok a, s) := rfl

theorem runIn_bind (x : Stateful S α) (k : α → Stateful S β) (s : S) :
    (x >>= k).runIn s =
      match x.runIn s with
      | (.ok a, s) => (k a).runIn s
      | (.error f, s) => (.error f, s) := by
  simp only [runIn, ExceptT.run_bind, StateT.run_bind]
  rcases StateT.run (ExceptT.run x) s with ⟨r, s'⟩
  cases r <;> rfl

theorem runIn_bind_ok {x : Stateful S α} {k : α → Stateful S β} {a : α} {s s' : S}
    (h : x.runIn s = (.ok a, s')) : (x >>= k).runIn s = (k a).runIn s' := by
  rw [runIn_bind, h]

theorem runIn_bind_error {x : Stateful S α} {k : α → Stateful S β} {f : Fault} {s s' : S}
    (h : x.runIn s = (.error f, s')) : (x >>= k).runIn s = (.error f, s') := by
  rw [runIn_bind, h]

open Operation in
/-- Looking at the items again and again answers each once if they are the same after that. -/
theorem runIn_answersFrom [MonadLiftT Operation (Stateful S)] {answer : Value → Stateful S β}
    {v : Value} {items : List Value} {s : S}
    (h : (liftM (itemsOf v) : Stateful S _).runIn s = (.ok items, s))
    (hafter : ∀ bs s', (items.mapM answer).runIn s = (.ok bs, s') →
      (liftM (itemsOf v) : Stateful S _).runIn s' = (.ok items, s')) (more : Nat) :
    (answersFrom answer v (more + 1) 0).runIn s = (items.mapM answer).runIn s := by
  have hround : ∀ u rounds place,
      (liftM (itemsOf v) : Stateful S _).runIn u = (.ok items, u) →
      (answersFrom answer v (rounds + 1) place).runIn u =
        (if (items.drop place).isEmpty then return [] else do
          let known ← (items.drop place).mapM answer
          return known ++
            (← answersFrom answer v rounds (place + (items.drop place).length)) :
            Stateful S (List β)).runIn u := by
    intro u rounds place hu
    rw [answersFrom]
    exact runIn_bind_ok hu
  rw [hround s _ 0 h, List.drop_zero]
  cases items with
  | nil => rfl
  | cons first items =>
    rw [if_neg (by simp), runIn_bind]
    rcases hrun : ((first :: items).mapM answer).runIn s with ⟨r, s₁⟩
    cases r with
    | error f => rfl
    | ok known =>
      -- the second look finds no item that is not answered yet
      have hdone : ∀ rounds,
          (answersFrom answer v rounds (0 + (first :: items).length)).runIn s₁ =
            (.ok [], s₁) := by
        intro rounds
        cases rounds with
        | zero => rfl
        | succ rounds =>
          rw [hround s₁ rounds _ (hafter known s₁ hrun), Nat.zero_add, List.drop_length]
          rfl
      dsimp only
      rw [runIn_bind_ok (hdone _), List.append_nil]
      rfl

end Stateful

namespace Walking

variable {σ α : Type}

/-- An operation is run in the world and leaves the other state as it is. -/
instance : MonadLift Operation (Walking σ) where
  monadLift x := ExceptT.mk fun p => ((x.runIn p.2).1, (p.1, (x.runIn p.2).2))

theorem runIn_lift {x : Operation α} {w w' : World} {r : Except Fault α}
    (h : x.runIn w = (r, w')) (s : σ) :
    (liftM x : Walking σ α).runIn (s, w) = (r, (s, w')) := by
  show ((x.runIn w).1, (s, (x.runIn w).2)) = _
  rw [h]

end Walking

namespace Operation

variable {α β : Type} {answer : Value → Operation β}

/-! ## Sorts of operations -/

/--
A sort of operations to which belong doing nothing, failing and looking at the world, and one
operation of the sort after another.
-/
structure Closed (P : ∀ ⦃α : Type⦄, Operation α → Prop) : Prop where
  done {α : Type} (a : α) : P (pure a : Operation α)
  failed {α : Type} (f : Fault) : P (throw f : Operation α)
  looked : P (getThe World : Operation World)
  bind {α β : Type} {x : Operation α} {k : α → Operation β} (hx : P x) (hk : ∀ a, P (k a)) :
    P (x >>= k)

namespace Closed

variable {P : ∀ ⦃α : Type⦄, Operation α → Prop} (hP : Closed P)

include hP

protected theorem ofExcept (x : Except Fault α) : P (ofExcept x) := by
  cases x with
  | error f => exact hP.failed f
  | ok a => exact hP.done a

/-- The answer or the fault of a computation, as any monad with faults takes it. -/
protected theorem raised (x : Except Fault α) : P (MonadExcept.ofExcept x : Operation α) := by
  cases x with
  | error f => exact hP.failed f
  | ok a => exact hP.done a

protected theorem read (v : Value) : P (read v) := hP.bind hP.looked fun _ => hP.done _

protected theorem readKey (key : Value) : P (readKey key) :=
  hP.bind (hP.read key) fun _ => hP.ofExcept _

protected theorem get? (id : Nat) : P (get? id) := hP.bind hP.looked fun _ => hP.done _

protected theorem objectOf (v : Value) : P (objectOf v) := by
  cases v with
  | atom a => exact hP.done none
  | ref id => exact hP.bind (hP.get? id) fun _ => hP.done _

protected theorem depthBound : P depthBound := hP.bind hP.looked fun _ => hP.done _

protected theorem discard {x : Operation α} (hx : P x) : P (discard x : Operation Unit) :=
  hP.bind hx fun _ => hP.done ()

protected theorem mapM {f : α → Operation β} (h : ∀ a, P (f a)) (items : List α) :
    P (items.mapM f) := by
  induction items with
  | nil => exact hP.done []
  | cons a items ih =>
    rw [List.mapM_cons]
    exact hP.bind (h a) fun _ => hP.bind ih fun _ => hP.done _

protected theorem forM {f : α → Operation Unit} (h : ∀ a, P (f a)) (items : List α) :
    P (items.forM f) := by
  induction items with
  | nil => exact hP.done ()
  | cons a items ih => exact hP.bind (h a) fun _ => ih

protected theorem answers {f : Int → Operation β} (h : ∀ i, P (f i)) (p : Progression) :
    P (p.answers f) := by
  have hnumbers : ∀ (count place : Nat) (known : List β),
      P (p.answersFrom f count place known) := by
    intro count
    induction count with
    | zero => exact fun _ _ => hP.done _
    | succ count ih => exact fun _ _ => hP.bind (h _) fun _ => ih _ _
  exact hnumbers _ _ _

protected theorem itemsOf (v : Value) : P (itemsOf v) :=
  hP.bind (hP.read v) fun _ => hP.bind (hP.ofExcept _) fun _ => hP.done _

protected theorem answersFrom (h : ∀ v, P (answer v)) (holder : Value) (rounds place : Nat) :
    P (answersFrom answer holder rounds place) := by
  induction rounds generalizing place with
  | zero => exact hP.done []
  | succ rounds ih =>
    rw [answersFrom]
    refine hP.bind (hP.itemsOf holder) fun items => ?_
    by_cases hempty : (items.drop place).isEmpty = true
    · rw [if_pos hempty]
      exact hP.done []
    · rw [if_neg hempty]
      exact hP.bind (hP.mapM h _) fun _ => hP.bind (ih _) fun _ => hP.done _

/-- If each answer is of the sort, so are the answers for all items, also those that are added. -/
protected theorem answersOf (h : ∀ v, P (answer v)) (holder : Value) :
    P (answersOf answer holder) := by
  rw [answersOf.eq_def]
  split
  · exact hP.answers (fun _ => h _) _
  · exact hP.bind hP.depthBound fun _ => hP.answersFrom h holder _ 0

end Closed

/-- Whatever world it runs in, an operation leaves a world that is related to it. -/
def Moves (R : World → World → Prop) (x : Operation α) : Prop := ∀ w, R w (x.runIn w).2

/-- What is kept between the worlds before and after one operation is kept by any number. -/
theorem closed_moves {R : World → World → Prop} (hrefl : ∀ w, R w w)
    (htrans : ∀ w w₁ w₂, R w w₁ → R w₁ w₂ → R w w₂) : Closed fun _ x => Moves R x where
  done _ := hrefl
  failed _ := hrefl
  looked := hrefl
  bind {_ _ x k} hx hk := by
    intro w
    have hfirst := hx w
    rw [runIn_bind]
    rcases hrun : x.runIn w with ⟨r, w₁⟩
    rw [hrun] at hfirst
    cases r with
    | error f => exact hfirst
    | ok a => exact htrans w w₁ _ hfirst (hk a w₁)

end Operation

end Markup
