import Markup.Proofs.Construction.Callees
import Markup.Proofs.Equality
import Markup.Proofs.Store.Unfolding
import Mathlib.Data.List.Perm.Subperm

/-!
# Listeners of a tree, compared

Values that can be called are equal if they are the same or of one kind, as a method is whenever it
is taken from the same object.  `World.comparand` is what tells them apart, and
`World.same_callable` says so of what they are unfolded to, however far, if only the object itself
is seen.

A tree is unfolded far enough to see the objects that listen.  Nothing that leads to them
(`World.Opens`) contains itself, so the way to a listener is no longer than there are objects
(`World.within_of_shows`).
-/

namespace Markup

/-- The kind of something to call, if it has one. -/
def Object.kind? {α : Type} : Object α → Option Nat
  | .listener _ _ kind _ => kind
  | _ => none

/-! ## What is called equal -/

/-- What can be called is equal to what is of its kind, and otherwise only to itself. -/
theorem Term.same_object_iff {i j : Nat} {o o' : Object Term}
    (ho : (∃ name refusal kind extras, o = .listener name refusal kind extras) ∨
      ∃ c, o = .constructor c) :
    same (.object i o) (.object j o') = true ↔
      i = j ∨ ∃ k, o.kind? = some k ∧ o'.kind? = some k := by
  rcases ho with ⟨_, _, kind, _, rfl⟩ | ⟨_, rfl⟩
  · have hkinds : ∀ kind' : Option Nat, (kind.isSome && kind == kind') = true ↔
        ∃ k, kind = some k ∧ kind' = some k := by
      intro kind'
      cases kind with
      | none => simp
      | some k => simpa using eq_comm
    cases o' <;> simp [same, identical, eq, Object.kind?, ← hkinds]
  · cases o' <;> simp [same, identical, eq, Object.kind?]

namespace World

variable {w : World} {depth : Nat}

/-- Two values are the same, or equal, as far as they are unfolded. -/
def SameTo (w : World) (depth : Nat) (v v' : Value) : Prop :=
  (w.unfold true depth v).same (w.unfold true depth v') = true

/-- Two values are the same, or equal. -/
def Same (w : World) (v v' : Value) : Prop := (w.read v).same (w.read v') = true

/-- What tells a value apart that can be called: its kind if it has one, and else itself. -/
def comparand (w : World) : Value → Value ⊕ Nat
  | .atom a => .inl (.atom a)
  | .ref i => (((w.objects[i]?).bind Object.kind?).map .inr).getD (.inl (.ref i))

/-- Two values are the same, or of one kind. -/
def SameComparand (w : World) (v v' : Value) : Prop := w.comparand v = w.comparand v'

theorem SameComparand.refl (w : World) (v : Value) : w.SameComparand v v := rfl

/-- An object that is not there, or too deep, is unfolded to one of no kind. -/
theorem exists_unfold_object (w : World) (depth i : Nat) :
    ∃ o, w.unfold true depth (.ref i) = .object i o ∧
      (0 < depth → o.kind? = (w.objects[i]?).bind Object.kind?) := by
  cases depth with
  | zero => exact ⟨_, rfl, fun h => nomatch h⟩
  | succ depth =>
    rw [unfold, unfoldWith]
    cases ho : w.objects[i]? with
    | none => exact ⟨_, rfl, fun _ => rfl⟩
    | some o => exact ⟨_, rfl, fun _ => by cases o <;> rfl⟩

theorem comparand_ref_eq_iff {i j : Nat} :
    w.comparand (.ref i) = w.comparand (.ref j) ↔ i = j ∨
      ∃ k, (w.objects[i]?).bind Object.kind? = some k ∧
        (w.objects[j]?).bind Object.kind? = some k := by
  rw [comparand, comparand]
  cases hi : (w.objects[i]?).bind Object.kind? <;> cases hj : (w.objects[j]?).bind Object.kind?
  case some.some =>
    simp only [Option.map_some, Option.getD_some, Sum.inr.injEq, Option.some.injEq]
    refine ⟨fun h => .inr ⟨_, rfl, h.symm⟩, ?_⟩
    rintro (rfl | ⟨k, rfl, rfl⟩)
    · exact Option.some.inj (hi.symm.trans hj)
    · rfl
  case none.none => simp
  all_goals
    simp only [Option.map_none, Option.map_some, Option.getD_none, Option.getD_some, reduceCtorEq,
      false_and, and_false, exists_false, or_false, false_iff]
    rintro rfl
    rw [hi] at hj
    cases hj

/-- An object that can be called is unfolded to a listener or a constructor. -/
theorem exists_unfold_callable {i : Nat} (hv : w.callable (.ref i) = true) (hdepth : 0 < depth) :
    ∃ o, w.unfold true depth (.ref i) = .object i o ∧
      ((∃ name refusal kind extras, o = .listener name refusal kind extras) ∨
        ∃ c, o = .constructor c) := by
  obtain ⟨depth, rfl⟩ := Nat.exists_eq_add_of_le' (show 1 ≤ depth from hdepth)
  rw [callable] at hv
  split at hv
  · next h => exact ⟨_, unfold_ref h depth, .inl ⟨_, _, _, _, rfl⟩⟩
  · next h => exact ⟨_, unfold_ref h depth, .inr ⟨_, rfl⟩⟩
  · cases hv

/-- What can be called is equal to what is of its kind, and otherwise only to itself. -/
theorem same_callable {v v' : Value} (hv : w.callable v = true)
    (hdepth : ∀ i, v = .ref i → 0 < depth) :
    w.SameTo depth v v' ↔ w.SameComparand v v' := by
  rw [SameTo, SameComparand]
  cases v with
  | atom a =>
    obtain ⟨c, rfl⟩ : ∃ c, a = .errorClass c := by
      cases a <;> simp only [callable, Bool.false_eq_true] at hv
      exact ⟨_, rfl⟩
    cases v' with
    | atom b =>
      rw [unfold_atom, unfold_atom, Term.same_atoms]
      cases b <;> simp [comparand, Atom.eq, Atom.toInt?]
    | ref j =>
      obtain ⟨o, ho, -⟩ := exists_unfold_object w depth j
      have hne : Term.same (.atom (.errorClass c)) (.object j o) = false := by
        cases o <;> simp [Term.same, Term.identical, Term.eq]
      rw [unfold_atom, ho, hne, comparand, comparand]
      cases (w.objects[j]?).bind Object.kind? <;> simp
  | ref i =>
    obtain ⟨o, ho, hcalled⟩ := exists_unfold_callable hv (hdepth i rfl)
    have hkind : o.kind? = (w.objects[i]?).bind Object.kind? := by
      obtain ⟨o₁, ho₁, hkind⟩ := exists_unfold_object w depth i
      obtain ⟨-, rfl⟩ := Term.object.inj (ho₁.symm.trans ho)
      exact hkind (hdepth i rfl)
    cases v' with
    | atom b =>
      have hne : Term.same (.object i o) (.atom b) = false := by
        rcases hcalled with ⟨_, _, _, _, rfl⟩ | ⟨_, rfl⟩ <;> cases b <;>
          simp [Term.same, Term.identical, Term.eq]
      rw [unfold_atom, ho, hne, comparand, comparand]
      cases (w.objects[i]?).bind Object.kind? <;> simp
    | ref j =>
      obtain ⟨o', ho', hkind'⟩ := exists_unfold_object w depth j
      rw [ho, ho', comparand_ref_eq_iff, ← hkind, ← hkind' (hdepth i rfl)]
      exact Term.same_object_iff hcalled

/-- What can be called stays told apart as it is, whatever else is made. -/
theorem Retains.comparand_eq {w' : World} (hkeep : w.Retains 0 w') {v : Value}
    (hv : w.callable v = true) : w'.comparand v = w.comparand v := by
  cases v with
  | atom a => rfl
  | ref i =>
    cases ho : w.objects[i]? with
    | none =>
      rw [World.callable, ho] at hv
      cases hv
    | some o => rw [comparand, comparand, ho, hkeep.kept (Nat.zero_le i) ho]

/-! ## How deep listeners lie -/

/-- What leads on to the listeners of a tree: the parts of an object that hold them. -/
def opened : Object Value → List Value
  | .node n => [n.listeners, n.children]
  | .map entries => entries.map (·.2)
  | .list items => items
  | _ => []

/-- An object leads on to another one, which is there. -/
def Opens (w : World) (i j : Nat) : Prop :=
  j < w.objects.size ∧ ∃ o, w.objects[i]? = some o ∧ .ref j ∈ opened o

theorem Opens.of_object {i j : Nat} {o o' : Object Value} (hi : w.objects[i]? = some o)
    (hj : w.objects[j]? = some o') (h : .ref j ∈ opened o) : w.Opens i j :=
  ⟨lt_size hj, o, hi, h⟩

/-- What can be called leads nowhere. -/
theorem within_callable {v : Value} (hv : w.callable v = true) {i : Nat} (hi : v = .ref i) :
    Within w.Opens 1 i := by
  rintro j ⟨-, o, ho, hj⟩
  rw [hi, callable, ho] at hv
  cases o with
  | listener | constructor => cases hj
  | _ => cases hv

/-- The way through a list is one longer than the ways through its items. -/
theorem within_list {n i : Nat} {vs : List Value} (hi : w.objects[i]? = some (.list vs))
    (h : ∀ v ∈ vs, ∀ j, v = .ref j → Within w.Opens n j) : Within w.Opens (n + 1) i := by
  rintro j ⟨-, o, ho, hj⟩
  rw [hi, Option.some.injEq] at ho
  exact h _ (ho ▸ hj : .ref j ∈ opened (.list vs)) j rfl

/-- From the listeners of a node it is three steps to the end. -/
theorem within_listeners {v : Value} {m : Entries String (List Value)} (hv : w.HasListeners v m)
    (hcallable : ∀ e ∈ m, ∀ f ∈ e.2, w.callable f = true) {i : Nat} (hi : v = .ref i) :
    Within w.Opens 3 i := by
  obtain ⟨rows, ⟨i', rfl, hmap⟩, hrows⟩ := hv
  obtain rfl := Value.ref.inj hi
  rintro j ⟨-, o, ho, hj⟩
  rw [hmap, Option.some.injEq] at ho
  subst ho
  obtain ⟨row, hrow, hrowj⟩ := List.mem_map.mp hj
  obtain ⟨e, he, -, l, hl, hlist⟩ := exists_mem_of_forall₂ hrows.flip hrow
  obtain rfl := Value.ref.inj (hrowj.symm.trans hl)
  exact within_list hlist fun f hf k hk => within_callable (hcallable e he f hf) hk

/-- From a node it is as far as from its children, and as from its listeners. -/
theorem within_node {n i : Nat} {m : Node Value} {h : Head} {vs : List Value}
    (hi : w.objects[i]? = some (.node m)) (fields : w.HasFields m h)
    (hcallable : h.Hears fun f => w.callable f = true) (holder : w.HasList m.children vs)
    (hvs : ∀ v ∈ vs, ∀ j, v = .ref j → Within w.Opens n j) : Within w.Opens (n + 4) i := by
  obtain ⟨l, hl, hlist⟩ := holder
  rintro j ⟨-, o, ho, hj⟩
  rw [hi, Option.some.injEq] at ho
  subst ho
  rcases List.mem_pair.mp hj with hj | hj
  · exact (within_listeners fields.listeners hcallable hj.symm).mono (by omega)
  · obtain rfl := Value.ref.inj (hj.trans hl)
    exact (within_list hlist hvs).mono (by omega)

/-- From a tree, all ways to its listeners come to an end. -/
theorem Shows.exists_within {v : Value} {t : Tree} (hv : w.Shows v t)
    (ht : t.Hears fun f => w.callable f = true) : ∃ n, ∀ i, v = .ref i → Within w.Opens n i := by
  induction t generalizing v with
  | text s =>
    cases hv
    exact ⟨0, fun i hi => nomatch hi⟩
  | node h ts ih =>
    cases hv with
    | @node id m _ vs _ object fields holder below =>
      obtain ⟨n, hn⟩ : ∃ n, ∀ v ∈ vs, ∀ i, v = .ref i → Within w.Opens n i := by
        refine exists_bound_of_forall (fun hle hv i hi => (hv i hi).mono hle) fun v hv => ?_
        obtain ⟨t, hts, hvt⟩ := exists_mem_of_forall₂ below.flip hv
        exact ih t hts hvt (ht.below t hts)
      refine ⟨n + 4, fun i hi => ?_⟩
      obtain rfl := Value.ref.inj hi
      exact within_node object fields ht.head holder hn

/-- A tree is unfolded far enough to show what listens. -/
theorem within_of_shows {v : Value} {t : Tree} (hv : (w.read v).Shows t)
    (ht : t.Hears fun f => w.callable f = true) {i : Nat} (hi : v = .ref i) :
    Within w.Opens w.depthBound i := by
  have hshows : w.Shows v t := .of_unfold hv
  obtain ⟨n, hn⟩ := hshows.exists_within ht
  subst hi
  cases hshows with
  | node object _ _ _ =>
    exact (Within.of_bounded (fun i j hij => hij.1) (lt_size object) (hn i rfl)).mono
      (Nat.le_succ _)

/-- Where all ways to the listeners of a node end, some of them are left at each listener. -/
theorem depth_pos_of_within {i n : Nat} {m : Node Value} {h : Head}
    (hi : w.objects[i]? = some (.node m)) (fields : w.HasFields m h) (hin : Within w.Opens n i)
    (hcallable : h.Hears fun f => w.callable f = true) {l : String × List Value}
    (hl : l ∈ h.listeners) {f : Value} (hf : f ∈ l.2) {j : Nat} (hj : f = .ref j) : 3 < n := by
  obtain ⟨rows, ⟨k, hk, hmap⟩, hrows⟩ := fields.listeners
  obtain ⟨row, hrow, -, k', hk', hlist⟩ := exists_mem_of_forall₂ hrows hl
  have hopens : w.Opens i k := .of_object hi hmap (hk ▸ List.mem_cons_self)
  have hopens' : w.Opens k k' :=
    .of_object hmap hlist (hk' ▸ List.mem_map_of_mem hrow : .ref k' ∈ opened (.map rows))
  have hopens'' : w.Opens k' j := by
    have hf' := hcallable l hl f hf
    rw [hj, callable] at hf'
    split at hf'
    case h_1 ho | h_2 ho => exact .of_object hlist ho (hj ▸ hf)
    case h_3 => cases hf'
  by_contra hle
  exact hin.mono (Nat.le_of_not_lt hle) _ hopens _ hopens' _ hopens''

end World

end Markup
