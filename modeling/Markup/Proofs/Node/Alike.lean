import Markup.Proofs.Node.Visits

/-!
# Two walks side by side

A visitor that is called in the one walk is called in the other one in a world that is different
only where the walkers left their answers: the nodes that the visitor gave back may have other
children there, and the lists that were gathered other items (`World.Alike`).  A visitor that does
not look there and changes nothing there, in any world that the walk comes to (`Passes`), answers
the same in both (`Respects`).
-/

namespace Markup

/-! ## Worlds that are different in some places -/

/-- Two nodes with the same fields but for their children, or two lists. -/
inductive Object.Alike : Object Value → Object Value → Prop
  | node (n : Node Value) (children : Value) :
      Alike (.node n) (.node { n with children := children })
  | list (items items' : List Value) : Alike (.list items) (.list items')

namespace World

/-- All of a world but its objects. -/
def surroundings (w : World) : World := { w with objects := #[] }

/-- Two worlds that are the same but for the children of some nodes and the items of some lists. -/
structure Alike (made : Nat → Prop) (w w' : World) : Prop where
  around : w.surroundings = w'.surroundings
  size_eq : w.objects.size = w'.objects.size
  same : ∀ {i : Nat}, ¬ made i → w.objects[i]? = w'.objects[i]?
  alike : ∀ {i : Nat}, made i →
    ∃ o o', w.objects[i]? = some o ∧ w'.objects[i]? = some o' ∧ o.Alike o'

variable {w w' : World} {made made' : Nat → Prop} {i : Nat}

theorem Alike.refl (w : World) : w.Alike (fun _ => False) w where
  around := rfl
  size_eq := rfl
  same _ := rfl
  alike h := h.elim

/-- A node is a node in both. -/
theorem Alike.node (h : w.Alike made w') {n : Node Value} (hn : w.objects[i]? = some (.node n)) :
    ∃ children, w'.objects[i]? = some (.node { n with children := children }) := by
  by_cases hi : made i
  · obtain ⟨o, o', ho, ho', halike⟩ := h.alike hi
    rw [hn, Option.some.injEq] at ho
    subst ho
    cases halike with
    | node n children => exact ⟨children, ho'⟩
  · exact ⟨n.children, (h.same hi).symm.trans hn⟩

/-- A node is a node in both, the other way round. -/
theorem Alike.node_left (h : w.Alike made w') {n' : Node Value}
    (hn' : w'.objects[i]? = some (.node n')) :
    ∃ n, w.objects[i]? = some (.node n) ∧ ∃ children, n' = { n with children := children } := by
  by_cases hi : made i
  · obtain ⟨o, o', ho, ho', halike⟩ := h.alike hi
    rw [hn', Option.some.injEq] at ho'
    subst ho'
    cases halike with
    | node n children => exact ⟨n, ho, children, rfl⟩
  · exact ⟨n', (h.same hi).trans hn', n'.children, rfl⟩

/-- More nodes may be different than are. -/
theorem Alike.grow (h : w.Alike made w') (hle : ∀ i, made i → made' i)
    (hnode : ∀ i, made' i → made i ∨ ∃ n, w.objects[i]? = some (.node n)) : w.Alike made' w' where
  around := h.around
  size_eq := h.size_eq
  same hi := h.same fun hmade => hi (hle _ hmade)
  alike {i} hi := by
    rcases hnode i hi with hmade | ⟨n, hn⟩
    · exact h.alike hmade
    · obtain ⟨children, hn'⟩ := h.node hn
      exact ⟨_, _, hn, hn', .node n children⟩

/-- The same object is made in both. -/
theorem Alike.add (h : w.Alike made w') (o : Object Value) :
    (w.add o).Alike made (w'.add o) where
  around := h.around
  size_eq := by rw [size_add, size_add, h.size_eq]
  same {i} hi := by
    rw [World.add, World.add, Array.getElem?_push, Array.getElem?_push, h.size_eq, h.same hi]
  alike {i} hi := by
    obtain ⟨o, o', ho, ho', halike⟩ := h.alike hi
    exact ⟨o, o', get_add ho, get_add ho', halike⟩

/-- A list is made in both, with other items in the one than in the other. -/
theorem Alike.addLists (h : w.Alike made w') (items items' : List Value) :
    (w.add (.list items)).Alike (fun i => made i ∨ i = w.objects.size)
      (w'.add (.list items')) where
  around := h.around
  size_eq := by rw [size_add, size_add, h.size_eq]
  same {i} hi := by
    have hne : i ≠ w.objects.size := fun heq => hi (.inr heq)
    have hne' : i ≠ w'.objects.size := h.size_eq ▸ hne
    rw [World.add, World.add, Array.getElem?_push, Array.getElem?_push, if_neg hne, if_neg hne',
      h.same fun hmade => hi (.inl hmade)]
  alike {i} hi := by
    rcases hi with hi | rfl
    · obtain ⟨o, o', ho, ho', halike⟩ := h.alike hi
      exact ⟨o, o', get_add ho, get_add ho', halike⟩
    · exact ⟨_, _, get_add_new, by rw [h.size_eq, get_add_new], .list items items'⟩

/-- A node that may be different is given other children in one of the worlds. -/
theorem Alike.replace (h : w.Alike made w') (hi : made i) {n n' : Node Value}
    (hn : w.objects[i]? = some (.node n)) (hn' : w'.objects[i]? = some (.node n'))
    (children : Value) :
    w.Alike made (w'.replace i (.node { n' with children := children })) where
  around := h.around
  size_eq := by rw [size_replace, h.size_eq]
  same {j} hj := by
    have hne : j ≠ i := fun heq => hj (heq ▸ hi)
    rw [get_replace_ne hne, h.same hj]
  alike {j} hj := by
    by_cases hji : j = i
    · subst hji
      obtain ⟨children', heq⟩ := h.node hn
      rw [hn', Option.some.injEq, Object.node.injEq] at heq
      subst heq
      exact ⟨_, _, hn, get_replace_self (lt_size hn'), .node n children⟩
    · obtain ⟨o, o', ho, ho', halike⟩ := h.alike hj
      exact ⟨o, o', ho, by rw [get_replace_ne hji, ho'], halike⟩

/-- The same copy of a node is made in both. -/
theorem Alike.withFrozenCopy (h : w.Alike made w') (n : Node Value) :
    (w.withFrozenCopy n).Alike made (w'.withFrozenCopy n) := by
  rw [World.withFrozenCopy, World.withFrozenCopy, ← h.size_eq]
  exact (h.add _).add _

/-! ## What is left as it is -/

/-- The lists among some objects are the same later, and the nodes have the same children. -/
structure Leaves (made : Nat → Prop) (w w' : World) : Prop where
  size_le : w.objects.size ≤ w'.objects.size
  list : ∀ {i : Nat} {items : List Value}, made i → w.objects[i]? = some (.list items) →
    w'.objects[i]? = some (.list items)
  node : ∀ {i : Nat} {n : Node Value}, made i → w.objects[i]? = some (.node n) →
    ∃ n', w'.objects[i]? = some (.node n') ∧ n'.children = n.children

theorem Leaves.refl (made : Nat → Prop) (w : World) : w.Leaves made w :=
  ⟨Nat.le_refl _, fun _ h => h, fun {_ n} _ h => ⟨n, h, rfl⟩⟩

theorem Leaves.mono (h : w.Leaves made w') (hle : ∀ i, made' i → made i) : w.Leaves made' w' where
  size_le := h.size_le
  list hi := h.list (hle _ hi)
  node hi := h.node (hle _ hi)

theorem Leaves.trans {w₁ : World} (h : w.Leaves made w₁) (h' : w₁.Leaves made w') :
    w.Leaves made w' where
  size_le := Nat.le_trans h.size_le h'.size_le
  list hi hlist := h'.list hi (h.list hi hlist)
  node hi hn := by
    obtain ⟨n₁, hn₁, hchildren⟩ := h.node hi hn
    obtain ⟨n', hn', hchildren'⟩ := h'.node hi hn₁
    exact ⟨n', hn', hchildren'.trans hchildren⟩

/-- Nothing that was there is changed. -/
theorem Retains.leaves (h : w.Retains 0 w') : w.Leaves made w' where
  size_le := h.size_le
  list _ := h.kept (Nat.zero_le _)
  node {_ n} _ hn := ⟨n, h.kept (Nat.zero_le _) hn, rfl⟩

/-- Another object is replaced. -/
theorem leaves_replace {k : Nat} (hk : ¬ made k) (o : Object Value) :
    w.Leaves made (w.replace k o) where
  size_le := Nat.le_of_eq size_replace.symm
  list {i _} hi hlist := by
    have hne : i ≠ k := fun heq => hk (heq ▸ hi)
    rw [get_replace_ne hne, hlist]
  node {i n} hi hn := by
    have hne : i ≠ k := fun heq => hk (heq ▸ hi)
    exact ⟨n, by rw [get_replace_ne hne, hn], rfl⟩

/-- A tree is the same tree as long as no children are changed. -/
theorem Leaves.spans {p p' : Nat → Prop} (hleaves : w.Leaves p w') {v : Value} {t : Skeleton}
    (h : w.Spans p v t) (hp : ∀ i, p i → p' i)
    (hfreezable : ∀ i n, p i → w'.objects[i]? = some (.node n) → n.Freezable) :
    w'.Spans p' v t := by
  induction t generalizing v with
  | text s =>
    cases h
    exact .text s
  | node i ts ih =>
    cases h with
    | node hn _ hi hchildren hlist hl hsub =>
      obtain ⟨n', hn', hchildren'⟩ := hleaves.node hi hn
      exact .node hn' (hfreezable _ _ hi hn') (hp _ hi) (hchildren'.trans hchildren)
        (hleaves.list hl hlist) (hp _ hl) (forall₂_imp_of_mem hsub fun t ht _ h => ih t ht h)

end World

/-! ## Visitors that respect a tree -/

section Respecting

variable {σ : Type} (fn : Value → Walking σ Value) (w₀ : World) (kept : Nat → Prop)

/-- A visitor is called with a frozen copy of one of the nodes that are kept. -/
structure Turn (n : Node Value) (s : σ) (w : World) (r : Except Fault Value) (s' : σ)
    (w' : World) : Prop where
  given : ∃ i, kept i ∧ w₀.objects[i]? = some (.node n)
  freezable : n.Freezable
  runs : (fn (.ref (w.objects.size + 1))).runIn (s, w.withFrozenCopy n) = (r, (s', w'))

/--
The states and worlds in which a transformation calls the visitor, with the nodes that it was
answered up to then and the lists that it gathered.  In which order the nodes are visited, and when
which answers are gathered, is not said.
-/
inductive Passes (s₀ : σ) : σ → World → (Nat → Prop) → Prop
  | start : Passes s₀ s₀ w₀ fun _ => False
  | visit {s s' : σ} {w w' : World} {made : Nat → Prop} {n : Node Value} {a : Value} :
      Passes s₀ s w made → Turn fn w₀ kept n s w (.ok a) s' w' →
        Passes s₀ s' w' fun i => made i ∨ a = .ref i
  | gather {s : σ} {w : World} {made : Nat → Prop} (items : List Value) :
      Passes s₀ s w made →
        Passes s₀ s (w.add (.list items)) fun i => made i ∨ i = w.objects.size

/--
A visitor with a state of its own may do anything with the node that it is handed, with what it made
in this call or in earlier ones, and with the objects of before the walk that need not be kept.  It
answers with a node, but with none of those that are kept.

What it must not do is to change the children of the nodes that it gave back earlier, or to depend
on them: its calls go the same way where these nodes have other children, and the lists that were
gathered other items.
-/
structure Respects (s₀ : σ) : Prop where
  answers : ∀ {s s' : σ} {w w' : World} {made : Nat → Prop} {n : Node Value} {v : Value},
    Passes fn w₀ kept s₀ s w made → Turn fn w₀ kept n s w (.ok v) s' w' →
      ∃ k c, v = .ref k ∧ w'.objects[k]? = some (.node c) ∧ (k < w₀.objects.size → ¬ kept k)
  keeps : ∀ {s s' : σ} {w w' : World} {made : Nat → Prop} {n : Node Value}
    {r : Except Fault Value} {i : Nat} {o : Object Value}, Passes fn w₀ kept s₀ s w made →
      Turn fn w₀ kept n s w r s' w' → kept i → w₀.objects[i]? = some o → w'.objects[i]? = some o
  leaves : ∀ {s s' : σ} {w w' : World} {made : Nat → Prop} {n : Node Value}
    {r : Except Fault Value}, Passes fn w₀ kept s₀ s w made → Turn fn w₀ kept n s w r s' w' →
      (w.withFrozenCopy n).Leaves made w'
  alike : ∀ {s s' : σ} {w w' u : World} {made : Nat → Prop} {n : Node Value}
    {r : Except Fault Value}, Passes fn w₀ kept s₀ s w made → Turn fn w₀ kept n s w r s' w' →
      w.Alike made u →
        ∃ u', (fn (.ref (w.objects.size + 1))).runIn (s, u.withFrozenCopy n) = (r, (s', u')) ∧
          w'.Alike (fun i => made i ∨ r = .ok (.ref i)) u' ∧
          (u.withFrozenCopy n).Leaves made u'

/--
The answers of a visitor are new nodes: those that it is handed, or others that it makes.  It gives
none of them back twice, and they are still such that they can be frozen.
-/
structure Renews (s₀ : σ) : Prop where
  answers : ∀ {s s' : σ} {w w' : World} {made : Nat → Prop} {n : Node Value} {k : Nat},
    Passes fn w₀ kept s₀ s w made → Turn fn w₀ kept n s w (.ok (.ref k)) s' w' →
      w₀.objects.size ≤ k ∧ ¬ made k
  freezable : ∀ {s : σ} {w : World} {made : Nat → Prop} {k : Nat} {c : Node Value},
    Passes fn w₀ kept s₀ s w made → made k → w.objects[k]? = some (.node c) → c.Freezable

variable {fn w₀ kept} {s₀ s : σ} {w : World} {made : Nat → Prop}

/-- There are no fewer objects than before the walk. -/
theorem Respects.size_le (hfn : Respects fn w₀ kept s₀) (h : Passes fn w₀ kept s₀ s w made) :
    w₀.objects.size ≤ w.objects.size := by
  induction h with
  | start => exact Nat.le_refl _
  | visit hbefore hturn ih =>
    have hsize := (hfn.leaves hbefore hturn).size_le
    rw [World.size_withFrozenCopy] at hsize
    omega
  | gather items hbefore ih =>
    rw [World.size_add]
    exact Nat.le_succ_of_le ih

/-- Where answers are new, all was made during the walk. -/
theorem Renews.le_made (h : Renews fn w₀ kept s₀) (hfn : Respects fn w₀ kept s₀)
    (hpasses : Passes fn w₀ kept s₀ s w made) {i : Nat} (hi : made i) : w₀.objects.size ≤ i := by
  induction hpasses with
  | start => exact hi.elim
  | visit hbefore hturn ih =>
    rcases hi with hi | rfl
    · exact ih hi
    · exact (h.answers hbefore hturn).1
  | gather items hbefore ih =>
    rcases hi with hi | rfl
    · exact ih hi
    · exact hfn.size_le hbefore

end Respecting

end Markup
