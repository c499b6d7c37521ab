import Markup.Proofs.Node.Skeleton
import Markup.Proofs.Node.Walk

/-!
# The calls of a visitor

A visitor is called with one frozen copy after the other.  `logged` writes down each `Visit`: the
argument, the node that was seen there with the items of its children, and the answer.  A walk does
the same whether this is done or not (`forgets_walkTo`).
`World.Called` says which visits those are of the nodes of a tree, when they are walked in order up
to the first answer that is a fault.

The two walkers differ only in what they do with the answer for a node and those for its children:
both are `walkTo`, which leaves this to a `gather` (`transformTo_eq`, `traverseTo_eq`).
-/

namespace Markup

/-! ## Writing down the calls -/

/-- A call of a visitor: what it was called with, what it saw there, and how the call ended. -/
structure Visit where
  argument : Value
  seen : Option (Node Value × List Value)
  answer : Except Fault Value

/-- The node that a value is, with the items of its children. -/
def World.look (w : World) : Value → Option (Node Value × List Value)
  | .atom _ => none
  | .ref i =>
    match w.objects[i]? with
    | some (.node n) => some (n, w.itemsHeld n.children)
    | _ => none

namespace World

/-- What is seen of a copy that was just made. -/
theorem look_withFrozenCopy {w : World} {n : Node Value} :
    (w.withFrozenCopy n).look (.ref (w.objects.size + 1)) =
      some ({ n with children := .ref w.objects.size }, []) := by
  rw [look, get_withFrozenCopy_node]
  dsimp only
  rw [HasList.itemsHeld_eq ⟨_, rfl, get_withFrozenCopy_list⟩]

end World

section Logging

variable {σ : Type}

/-- A visitor of which each call is written down. -/
def logged (fn : Value → Walking σ Value) (v : Value) : Walking (σ × List Visit) Value :=
  ExceptT.mk fun p =>
    let r := (fn v).runIn (p.1.1, p.2)
    (r.1, ((r.2.1, p.1.2 ++ [⟨v, p.2.look v, r.1⟩]), r.2.2))

theorem runIn_logged {fn : Value → Walking σ Value} {v : Value} {s s' : σ} {w w' : World}
    {r : Except Fault Value} (h : (fn v).runIn (s, w) = (r, (s', w'))) (log : List Visit) :
    (logged fn v).runIn ((s, log), w) = (r, ((s', log ++ [⟨v, w.look v, r⟩]), w')) := by
  show (((fn v).runIn (s, w)).1, ((((fn v).runIn (s, w)).2.1, log ++
    [⟨v, w.look v, ((fn v).runIn (s, w)).1⟩]), ((fn v).runIn (s, w)).2.2)) = _
  rw [h]

/-! ### What is not changed by it -/

/-- A computation that does what another one does, and may write something down beside it. -/
def Forgets {α : Type} (y : Walking (σ × List Visit) α) (x : Walking σ α) : Prop :=
  ∀ s log w, ∃ log', y.runIn ((s, log), w) =
    ((x.runIn (s, w)).1, (((x.runIn (s, w)).2.1, log'), (x.runIn (s, w)).2.2))

variable {α β : Type} {x : Walking σ α} {y : Walking (σ × List Visit) α}

theorem forgets_logged (fn : Value → Walking σ Value) (v : Value) : Forgets (logged fn v) (fn v) :=
  fun _ _ _ => ⟨_, runIn_logged rfl _⟩

theorem forgets_lift (z : Operation α) :
    Forgets (liftM z : Walking (σ × List Visit) α) (liftM z : Walking σ α) :=
  fun _ log _ => ⟨log, rfl⟩

theorem forgets_pure (a : α) : Forgets (pure a : Walking (σ × List Visit) α) (pure a) :=
  fun _ log _ => ⟨log, rfl⟩

theorem Forgets.bind {k : α → Walking σ β} {l : α → Walking (σ × List Visit) β}
    (h : Forgets y x) (hk : ∀ a, Forgets (l a) (k a)) : Forgets (y >>= l) (x >>= k) := by
  intro s log w
  obtain ⟨log₁, hrun⟩ := h s log w
  rw [Stateful.runIn_bind, Stateful.runIn_bind, hrun]
  rcases x.runIn (s, w) with ⟨r, s₁, w₁⟩
  cases r with
  | error f => exact ⟨log₁, rfl⟩
  | ok a => exact hk a s₁ log₁ w₁

/-- What is left when what was written down is left out. -/
theorem Forgets.runIn (h : Forgets y x) {s s' : σ} {log log' : List Visit} {w w' : World}
    {r : Except Fault α} (hrun : y.runIn ((s, log), w) = (r, ((s', log'), w'))) :
    x.runIn (s, w) = (r, (s', w')) := by
  obtain ⟨log₁, hforgets⟩ := h s log w
  rw [hrun, Prod.mk.injEq, Prod.mk.injEq, Prod.mk.injEq] at hforgets
  obtain ⟨rfl, ⟨rfl, -⟩, rfl⟩ := hforgets
  rfl

theorem forgets_mapM {f : Value → Walking σ β} {g : Value → Walking (σ × List Visit) β}
    (h : ∀ v, Forgets (g v) (f v)) (vs : List Value) : Forgets (vs.mapM g) (vs.mapM f) := by
  induction vs with
  | nil => exact forgets_pure []
  | cons v vs ih =>
    rw [List.mapM_cons, List.mapM_cons]
    exact (h v).bind fun _ => ih.bind fun _ => forgets_pure _

theorem forgets_answersOf {f : Value → Walking σ β} {g : Value → Walking (σ × List Visit) β}
    (h : ∀ v, Forgets (g v) (f v)) (holder : Value) :
    Forgets (Operation.answersOf g holder) (Operation.answersOf f holder) := by
  have hitems : ∀ rounds place, Forgets (Operation.answersFrom g holder rounds place)
      (Operation.answersFrom f holder rounds place) := by
    intro rounds
    induction rounds with
    | zero => exact fun _ => forgets_pure []
    | succ rounds ih =>
      intro place
      rw [Operation.answersFrom, Operation.answersFrom]
      refine (forgets_lift _).bind fun items => ?_
      by_cases hempty : (items.drop place).isEmpty = true
      · rw [if_pos hempty, if_pos hempty]
        exact forgets_pure []
      · rw [if_neg hempty, if_neg hempty]
        exact (forgets_mapM h _).bind fun _ => (ih _).bind fun _ => forgets_pure _
  have hnumbers : ∀ (p : Progression) count place known,
      Forgets (p.answersFrom (fun i => g (.int i)) count place known)
        (p.answersFrom (fun i => f (.int i)) count place known) := by
    intro p count
    induction count with
    | zero => exact fun _ known => forgets_pure _
    | succ count ih => exact fun place known => (h _).bind fun _ => ih _ _
  rw [Operation.answersOf.eq_def, Operation.answersOf.eq_def]
  split
  · exact hnumbers _ _ _ _
  · exact (forgets_lift _).bind fun _ => hitems _ _

end Logging

/-! ## Which calls there are -/

namespace World

variable {w w₀ : World} {lo mid hi lo' hi' : Nat} {is js ks : List Nat} {vs us : List Visit}
  {r : Except Fault (List Nat)}

/--
A visit shows a frozen copy of a node: an object that was made meanwhile, with no children and with
all other fields of the node.
-/
structure ShownCopy (w₀ : World) (i lo hi : Nat) (v : Visit) : Prop where
  argument : ∃ j, v.argument = .ref j ∧ lo ≤ j ∧ j < hi
  seen : ∃ n children, w₀.objects[i]? = some (.node n) ∧
    v.seen = some ({ n with children := children }, [])

/--
The nodes are shown in order, each by a new copy, up to the first answer that is a fault.  All
answers before that are nodes, and the objects are made between the two numbers.
-/
inductive Called (w₀ : World) :
    Nat → Nat → List Nat → List Visit → Except Fault (List Nat) → Prop
  | done {lo hi : Nat} (hle : lo ≤ hi) : Called w₀ lo hi [] [] (.ok [])
  | stop {lo hi i : Nat} {is : List Nat} {v : Visit} {f : Fault} (h : w₀.ShownCopy i lo hi v)
      (hf : v.answer = .error f) : Called w₀ lo hi (i :: is) [v] (.error f)
  | next {lo mid hi i k : Nat} {is : List Nat} {v : Visit} {vs : List Visit}
      {r : Except Fault (List Nat)} (h : w₀.ShownCopy i lo mid v) (hk : v.answer = .ok (.ref k))
      (hrest : Called w₀ mid hi is vs r) : Called w₀ lo hi (i :: is) (v :: vs) ((k :: ·) <$> r)

theorem ShownCopy.mono {i : Nat} {v : Visit} (h : w₀.ShownCopy i lo hi v) (hlo : lo' ≤ lo)
    (hhi : hi ≤ hi') : w₀.ShownCopy i lo' hi' v where
  argument := by
    obtain ⟨j, hj, hle, hlt⟩ := h.argument
    exact ⟨j, hj, by omega, by omega⟩
  seen := h.seen

theorem Called.mono (h : w₀.Called lo hi is vs r) (hlo : lo' ≤ lo) (hhi : hi ≤ hi') :
    w₀.Called lo' hi' is vs r := by
  induction h generalizing lo' with
  | done hle => exact .done (by omega)
  | stop h hf => exact .stop (h.mono hlo hhi) hf
  | next h hk _ ih => exact .next (h.mono hlo (Nat.le_refl _)) hk (ih (Nat.le_refl _) hhi)

/-- After the first fault, no further nodes are shown. -/
theorem Called.append_error {f : Fault} (h : w₀.Called lo hi is vs (.error f)) (js : List Nat) :
    w₀.Called lo hi (is ++ js) vs (.error f) := by
  generalize hr : (Except.error f : Except Fault (List Nat)) = r at h
  induction h with
  | done => cases hr
  | stop h hf => exact .stop h hf
  | @next _ _ _ _ k _ _ _ r h hk _ ih =>
    cases r with
    | ok ks => cases hr
    | error g => exact .next h hk (ih hr)

/-- Where no answer is a fault, the nodes that come after are shown too. -/
theorem Called.append (h : w₀.Called lo mid is vs (.ok ks)) (h' : w₀.Called mid hi js us r) :
    w₀.Called lo hi (is ++ js) (vs ++ us) ((ks ++ ·) <$> r) := by
  generalize hr : (Except.ok ks : Except Fault (List Nat)) = r' at h
  induction h generalizing ks with
  | done hle =>
    cases hr
    cases r <;> exact h'.mono hle (Nat.le_refl _)
  | stop => cases hr
  | @next _ _ _ _ k _ _ _ r' h hk _ ih =>
    cases r' with
    | error g => cases hr
    | ok ls =>
      cases hr
      have hrest := Called.next h hk (ih h' rfl)
      cases r <;> exact hrest

end World

/-! ## The two walkers as one -/

namespace Operation

variable {m : Type → Type} [Monad m] [MonadLiftT Operation m]

/-- Visits a tree to a depth, and gathers the answer for each node and those for its children. -/
def walkTo (visit : Value → m Value) (gather : Value → List Value → m Value) :
    Nat → Value → m Value
  | 0, _ => liftM (fail .unsuitable : Operation Value)
  | depth + 1, v => do
    let first ← visit (← askFrozen v)
    let children ← member v "children"
    let rest ← answersOf (walkChild (walkTo visit gather depth)) children
    gather first rest

/-- A list of the answer for a node and of those for its children. -/
def gatherList (first : Value) (rest : List Value) : m Value := do
  makeList (first :: rest)

/-- The answer for a node, with those for its children as its children. -/
def gatherTree (root : Value) (walked : List Value) : m Value := do
  replaceChildren root walked
  return root

variable (visit : Value → m Value) (depth : Nat)

theorem transformTo_eq : transformTo visit depth = walkTo visit gatherList depth := by
  induction depth with
  | zero => rfl
  | succ depth ih =>
    funext v
    rw [transformTo, walkTo, ih]
    rfl

theorem traverseTo_eq : traverseTo visit depth = walkTo visit gatherTree depth := by
  induction depth with
  | zero => rfl
  | succ depth ih =>
    funext v
    rw [traverseTo, walkTo, ih]
    rfl

/-- A walk is the same whether the calls of the visitor are written down or not. -/
theorem forgets_walkTo {σ : Type} (fn : Value → Walking σ Value)
    {gather : Value → List Value → Walking σ Value}
    {gatherLogged : Value → List Value → Walking (σ × List Visit) Value}
    (h : ∀ first rest, Forgets (gatherLogged first rest) (gather first rest)) (depth : Nat)
    (v : Value) :
    Forgets (walkTo (logged fn) gatherLogged depth v) (walkTo fn gather depth v) := by
  induction depth generalizing v with
  | zero => exact forgets_lift _
  | succ depth ih =>
    have hpart : ∀ c, Forgets (walkChild (walkTo (logged fn) gatherLogged depth) c)
        (walkChild (walkTo fn gather depth) c) := by
      refine fun c => (forgets_lift (isNode c)).bind fun b => ?_
      cases b with
      | false => exact forgets_pure c
      | true => exact ih c
    exact (forgets_lift _).bind fun copy => (forgets_logged fn copy).bind fun first =>
      (forgets_lift _).bind fun children => (forgets_answersOf hpart children).bind fun rest =>
        h first rest

end Operation

end Markup
