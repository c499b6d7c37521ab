import Markup.Proofs.Node.Alike

/-!
# How far two walks have come

A `Moment` is how far two walks of a tree have come together: the visitor was called in the same way
in both, and the worlds are alike (`Moment.Fits`).  From one moment to a later one, what was made
before keeps its children and its items (`Moment.Later`), in the second walk if no node is answered
twice.

There are two steps.  The visitor is called in both walks with a frozen copy of a node
(`Moment.call`, `Respects.visit`), and the answers for a node and its children are put together
(`Moment.gather`).  At the moments in between, the first walk is where the visitor is known to
respect the tree (`Moment.Reached`).
-/

namespace Markup

/-! ## Moments -/

/--
How far two walks have come: the state of the visitor and the calls up to now, which are the same
in both, the two worlds, and which objects may be different there.
-/
structure Moment (σ : Type) where
  state : σ
  visits : List Visit
  left : World
  right : World
  made : Nat → Prop

namespace Moment

variable {σ : Type}

/-- How far the first walk has come. -/
def first (m : Moment σ) : (σ × List Visit) × World := ((m.state, m.visits), m.left)

/-- How far the second walk has come. -/
def second (m : Moment σ) : (σ × List Visit) × World := ((m.state, m.visits), m.right)

/-- The worlds are alike, nothing is different but what was made, and the tree is the same. -/
structure Fits (w₀ : World) (kept : Nat → Prop) (m : Moment σ) : Prop where
  alike : m.left.Alike m.made m.right
  made : ∀ i, m.made i → (i < w₀.objects.size → ¬ kept i) ∧ i < m.left.objects.size
  kept : ∀ {i : Nat} {o : Object Value}, kept i → w₀.objects[i]? = some o →
    m.left.objects[i]? = some o

/-- The next call may come. -/
structure Reached (fn : Value → Walking σ Value) (w₀ : World) (keep : Nat → Prop) (s₀ : σ)
    (m : Moment σ) : Prop extends Fits w₀ keep m where
  passes : Passes fn w₀ keep s₀ m.state m.left m.made

/--
From one moment to a later one, what was made before is left as it is: in the second walk, in which
the answers are given children, at least where they are new.
-/
structure Later (anew : Prop) (m m' : Moment σ) : Prop where
  made : ∀ i, m.made i → m'.made i
  left : m.left.Leaves m.made m'.left
  right : anew → m.right.Leaves m.made m'.right

variable {m m₁ m' : Moment σ} {w₀ : World} {kept : Nat → Prop} {anew : Prop}

theorem Later.refl (m : Moment σ) : m.Later anew m :=
  ⟨fun _ h => h, .refl _ _, fun _ => .refl _ _⟩

theorem Later.trans (h : m.Later anew m₁) (h' : m₁.Later anew m') : m.Later anew m' where
  made i hi := h'.made i (h.made i hi)
  left := h.left.trans (h'.left.mono h.made)
  right hnew := (h.right hnew).trans ((h'.right hnew).mono h.made)

/-- What is kept is the same in the second world too. -/
theorem Fits.kept_right (h : m.Fits w₀ kept) {i : Nat} {o : Object Value} (hi : kept i)
    (ho : w₀.objects[i]? = some o) : m.right.objects[i]? = some o := by
  have hnot : ¬ m.made i := fun hmade => (h.made i hmade).1 (World.lt_size ho) hi
  rw [← h.alike.same hnot, h.kept hi ho]

/-- What became different since another moment. -/
def Since (m m' : Moment σ) (i : Nat) : Prop := m'.made i ∧ ¬ m.made i

/-- What the visitor gave back can be frozen, with whatever children. -/
theorem Reached.freezable_right {fn : Value → Walking σ Value} {s₀ : σ}
    (h : m.Reached fn w₀ kept s₀) (hnew : Renews fn w₀ kept s₀) (k : Nat) (c : Node Value)
    (hk : m.made k) (hc : m.right.objects[k]? = some (.node c)) : c.Freezable := by
  obtain ⟨n, hn, children, rfl⟩ := h.alike.node_left hc
  exact (hnew.freezable h.passes hk hn).withChildren _

/-! ### Gathering -/

/--
The moment after the answers for a node and for its children were put together: in a list of all of
them in the first walk, in a list of those for the children, which the node has then, in the second.
-/
def gather (m : Moment σ) (k : Nat) (n : Node Value) (rest walked : List Value) : Moment σ where
  state := m.state
  visits := m.visits
  left := m.left.add (.list (.ref k :: rest))
  right := (m.right.add (.list walked)).replace k
    (.node { n with children := .ref m.right.objects.size })
  made i := m.made i ∨ i = m.left.objects.size

theorem Reached.gather {fn : Value → Walking σ Value} {s₀ : σ} (h : m.Reached fn w₀ kept s₀)
    (hfn : Respects fn w₀ kept s₀) {k : Nat} {n n' : Node Value} (hk : m.made k)
    (hn : m.left.objects[k]? = some (.node n)) (hn' : m.right.objects[k]? = some (.node n'))
    (rest walked : List Value) : (m.gather k n' rest walked).Reached fn w₀ kept s₀ where
  alike := (h.alike.addLists _ walked).replace (.inl hk) (World.get_add hn) (World.get_add hn') _
  made i hi := by
    rw [Moment.gather, World.size_add]
    rcases hi with hi | rfl
    · obtain ⟨hkept, hlt⟩ := h.made i hi
      exact ⟨hkept, by omega⟩
    · have hsize := hfn.size_le h.passes
      exact ⟨fun hlt => absurd hlt (Nat.not_lt.mpr hsize), Nat.lt_succ_self _⟩
  kept hi ho := World.get_add (h.kept hi ho)
  passes := h.passes.gather _

/-- What was made before the answer for a node is left as it is when the answers are gathered. -/
theorem Later.gather {k : Nat} {c' : Node Value} {rest walked : List Value}
    (h : m.Later anew m') (hk : anew → ¬ m.made k) :
    m.Later anew (m'.gather k c' rest walked) where
  made i hi := .inl (h.made i hi)
  left := h.left.trans (World.Retains.leaves World.changesOnly_add)
  right hnew := ((h.right hnew).trans (World.Retains.leaves World.changesOnly_add)).trans
    (World.leaves_replace (hk hnew) _)

end Moment

/-! ### Visiting -/

/-- The moment after the visitor was called and left these worlds. -/
def Moment.call {σ : Type} (m : Moment σ) (v : Visit) (s : σ) (left right : World) :
    Moment σ where
  state := s
  visits := m.visits ++ [v]
  left := left
  right := right
  made i := m.made i ∨ v.answer = .ok (.ref i)

section Visiting

open Operation World

variable {σ : Type} {fn : Value → Walking σ Value} {w₀ w u u' : World} {kept : Nat → Prop}
  {s₀ s : σ} {m : Moment σ} {n : Node Value} {v : Visit}

/-- After a call, the walks fit if the answer is a node that is not kept. -/
theorem Moment.Fits.call (hm : m.Fits w₀ kept)
    (hsize : m.left.objects.size ≤ u.objects.size)
    (halike : u.Alike (fun i => m.made i ∨ v.answer = .ok (.ref i)) u')
    (hanswer : ∀ k, v.answer = .ok (.ref k) →
      (k < w₀.objects.size → ¬ kept k) ∧ ∃ c, u.objects[k]? = some (.node c))
    (hkept : ∀ {i o}, kept i → w₀.objects[i]? = some o → u.objects[i]? = some o) :
    (m.call v s u u').Fits w₀ kept where
  alike := halike
  made k hk := by
    rcases hk with hk | hk
    · obtain ⟨hnot, hlt⟩ := hm.made k hk
      exact ⟨hnot, Nat.lt_of_lt_of_le hlt hsize⟩
    · obtain ⟨hnot, c, hc⟩ := hanswer k hk
      exact ⟨hnot, lt_size hc⟩
  kept := hkept

/-- A node is frozen, and the visitor is called with the copy. -/
theorem runIn_askThenLogged {s s' : σ} {i : Nat} {r : Except Fault Value}
    (hn : w.objects[i]? = some (.node n)) (hfreezable : n.Freezable)
    (hrun : (fn (.ref (w.objects.size + 1))).runIn (s, w.withFrozenCopy n) = (r, (s', u)))
    (log : List Visit) :
    ((liftM (askFrozen (.ref i)) : Walking (σ × List Visit) Value) >>= logged fn).runIn
        ((s, log), w) =
      (r, ((s', log ++ [⟨.ref (w.objects.size + 1),
        some ({ n with children := .ref w.objects.size }, []), r⟩]), u)) := by
  have hask : (askFrozen (.ref i)).runIn w =
      (.ok (.ref (w.objects.size + 1)), w.withFrozenCopy n) :=
    (runIn_askFrozen hn).trans (runIn_freezeNode hfreezable w)
  rw [Stateful.runIn_bind_ok (Walking.runIn_lift hask _), runIn_logged hrun,
    look_withFrozenCopy]

/-- The next visit is the same in both walks. -/
theorem Respects.visit (hfn : Respects fn w₀ kept s₀) (hm : m.Reached fn w₀ kept s₀) {i : Nat}
    (hn : w₀.objects[i]? = some (.node n)) (hfreezable : n.Freezable) (hi : kept i) :
    ∃ m' v, m'.Fits w₀ kept ∧ m.Later (Renews fn w₀ kept s₀) m' ∧ m'.visits = m.visits ++ [v] ∧
      w₀.ShownCopy i m.left.objects.size m'.left.objects.size v ∧
      ((liftM (askFrozen (.ref i)) : Walking (σ × List Visit) Value) >>= logged fn).runIn m.first =
        (v.answer, m'.first) ∧
      ((liftM (askFrozen (.ref i)) : Walking (σ × List Visit) Value) >>= logged fn).runIn m.second =
        (v.answer, m'.second) ∧
      ∀ a, v.answer = .ok a → m'.Reached fn w₀ kept s₀ ∧ ∃ k c, a = .ref k ∧ m'.made k ∧
        m'.left.objects[k]? = some (.node c) ∧ (∀ j, m.Since m' j → j = k) ∧
        (Renews fn w₀ kept s₀ → ¬ m.made k) := by
  rcases hrun : (fn (.ref (m.left.objects.size + 1))).runIn
    (m.state, m.left.withFrozenCopy n) with ⟨r, s, u⟩
  have hturn : Turn fn w₀ kept n m.state m.left r s u := ⟨⟨i, hi, hn⟩, hfreezable, hrun⟩
  obtain ⟨u', hrun', halike, hright⟩ := hfn.alike hm.passes hturn hm.alike
  have hleft := hfn.leaves hm.passes hturn
  have hleaves : m.left.Leaves m.made u := (retains_withFrozenCopy m.left n).leaves.trans hleft
  have hanswer : ∀ k, r = .ok (.ref k) →
      (k < w₀.objects.size → ¬ kept k) ∧ ∃ c, u.objects[k]? = some (.node c) := by
    rintro k rfl
    obtain ⟨k', c, hk', hc, hkept⟩ := hfn.answers hm.passes hturn
    obtain rfl := Value.ref.inj hk'
    exact ⟨hkept, c, hc⟩
  let v : Visit := ⟨.ref (m.left.objects.size + 1),
    some ({ n with children := .ref m.left.objects.size }, []), r⟩
  have hfits : (m.call v s u u').Fits w₀ kept :=
    hm.toFits.call hleaves.size_le halike hanswer (hfn.keeps hm.passes hturn)
  refine ⟨m.call v s u u', v, hfits,
    ⟨fun _ => .inl, hleaves, fun _ => (retains_withFrozenCopy m.right n).leaves.trans hright⟩,
    rfl, ?_,
    runIn_askThenLogged (hm.kept hi hn) hfreezable hrun m.visits, ?_, ?_⟩
  · refine ⟨⟨_, rfl, Nat.le_succ _, ?_⟩, n, _, hn, rfl⟩
    have hsize := hleft.size_le
    rw [size_withFrozenCopy] at hsize
    exact hsize
  · rw [hm.alike.size_eq] at hrun'
    have hlook := runIn_askThenLogged (hm.kept_right hi hn) hfreezable hrun' m.visits
    rwa [← hm.alike.size_eq] at hlook
  · rintro a rfl
    obtain ⟨k, c, rfl, hc, -⟩ := hfn.answers hm.passes hturn
    refine ⟨⟨hfits, ?_⟩, k, c, rfl, .inr rfl, hc, ?_, fun hnew => (hnew.answers hm.passes hturn).2⟩
    · have hmade : (m.call v s u u').made = fun j => m.made j ∨ Value.ref k = .ref j :=
        funext fun j => congrArg (m.made j ∨ ·) (Except.ok.injEq _ _)
      rw [hmade]
      exact hm.passes.visit hturn
    · rintro j ⟨hmade | hanswer, hnot⟩
      · exact absurd hmade hnot
      · exact (Value.ref.inj (Except.ok.inj hanswer)).symm

end Visiting

end Markup
