import Markup.Proofs.Equality
import Markup.Proofs.Node.Skeleton
import Markup.Proofs.Store.Unfolding

/-!
# What a node is, whenever it was made

A list that is made twice of the same items is two objects, which are equal.  A `Likeness` says what
a value is whenever it was made: what was there at some moment is the same object ever after, and a
newer list, tuple, map or buffer is told by what it holds (`World.IsLike`).  `Features` say this of
the fields of a node.

Values of one likeness are equal (`World.IsLike.eq`), unless they are an object that does not equal
itself, as long as they are unfolded as far down as there is anything new (`World.EndsBy`).
-/

namespace Markup

/-! ## Likenesses -/

/-- What holds items together: a list, a tuple, a map over its keys, or bytes without any. -/
inductive Frame where
  | list
  | tuple
  | map (keys : List Atom)
  | buffer (bytes : List UInt8)

namespace Frame

/-- The object that holds some items. -/
def holding : Frame → List Value → Object Value
  | .list, items => .list items
  | .tuple, items => .tuple items
  | .map keys, items => .map ((keys.map Value.atom).zip items)
  | .buffer bytes, _ => .buffer bytes

/-- As many items can be held: a map has one of them under each of its keys. -/
def Suits : Frame → Nat → Prop
  | .list, _ | .tuple, _ => True
  | .map keys, n => Term.Distinct keys ∧ keys.length = n
  | .buffer _, n => n = 0

variable {frame : Frame} {vs vs' : List Value} {v : Value}

/-- What is held is shown. -/
theorem mem_shown (hsuits : frame.Suits vs.length) (hv : v ∈ vs) :
    v ∈ (frame.holding vs).shown := by
  cases frame with
  | list => exact hv
  | tuple => exact hv
  | map keys =>
    have hlength : vs.length ≤ (keys.map Value.atom).length := by
      rw [List.length_map]
      exact Nat.le_of_eq hsuits.2.symm
    rw [← List.map_snd_zip hlength] at hv
    obtain ⟨e, he, rfl⟩ := List.mem_map.mp hv
    exact List.mem_flatMap.mpr ⟨e, he, by simp⟩
  | buffer bytes =>
    obtain rfl := List.length_eq_zero_iff.mp hsuits
    cases hv

/-- What is shown beside the items is an atom. -/
theorem mem_of_shown (hv : v ∈ (frame.holding vs).shown) : (∃ a, v = .atom a) ∨ v ∈ vs := by
  cases frame with
  | list => exact .inr hv
  | tuple => exact .inr hv
  | map keys =>
    obtain ⟨e, he, hmem⟩ := List.mem_flatMap.mp hv
    obtain ⟨hkey, hitem⟩ := List.of_mem_zip he
    rcases List.mem_cons.mp hmem with rfl | hmem
    · obtain ⟨k, -, hk⟩ := List.mem_map.mp hkey
      exact .inl ⟨k, hk.symm⟩
    · obtain rfl := List.mem_singleton.mp hmem
      exact .inr hitem
  | buffer bytes => cases hv

/-- Objects that hold items which are the same in order are equal. -/
theorem eq_holding (frame : Frame) {i j : Nat} {f inside aside inside' aside' : Value → Term}
    (hatom : ∀ a, f (.atom a) = .atom a) (hsuits : frame.Suits vs.length)
    (h : List.Forall₂ (fun v v' => (f v).same (f v') = true) vs vs') :
    Term.eq (.object i ((frame.holding vs).mapParts f inside aside))
      (.object j ((frame.holding vs').mapParts f inside' aside')) = true := by
  have hsame : List.Forall₂ (fun x y => Term.same x y = true) (vs.map f) (vs'.map f) :=
    List.forall₂_map_left_iff.mpr (List.forall₂_map_right_iff.mpr h)
  have hentries : ∀ (keys : List Atom) (us : List Value),
      ((keys.map Value.atom).zip us).map (Prod.map f f) = Term.entriesOf keys (us.map f) := by
    intro keys us
    rw [Term.entriesOf, ← List.zip_map, List.map_map]
    simp [Function.comp_def, hatom]
  cases frame with
  | list =>
    show Term.eq (.list i (vs.map f)) (.list j (vs'.map f)) = true
    rw [Term.eq]
    exact Term.allSame_of_forall₂ hsame
  | tuple =>
    show Term.eq (.tuple i (vs.map f)) (.tuple j (vs'.map f)) = true
    rw [Term.eq]
    exact Term.allSame_of_forall₂ hsame
  | map keys =>
    show Term.eq (.map i (((keys.map Value.atom).zip vs).map (Prod.map f f)))
      (.map j (((keys.map Value.atom).zip vs').map (Prod.map f f))) = true
    rw [hentries, hentries]
    exact Term.eq_map_entriesOf hsuits.1 hsame
  | buffer bytes => simp [holding, Object.mapParts, Term.eq]

end Frame

/--
What a value is, but for which object it is if it was made after some moment.  A list, a tuple, a
map or a buffer that is newer is told by what it holds, and no other newer object has a likeness.
-/
inductive Likeness where
  | atom (a : Atom)
  | old (i : Nat)
  | made (frame : Frame) (items : List Likeness)

namespace Likeness

/-- Likenesses are gone through with all items of an object. -/
@[elab_as_elim, induction_eliminator]
theorem ind {p : Likeness → Prop} (atom : ∀ a, p (.atom a)) (old : ∀ i, p (.old i))
    (made : ∀ frame items, (∀ s ∈ items, p s) → p (.made frame items)) (s : Likeness) : p s := by
  refine s.rec (motive_2 := fun items => ∀ s ∈ items, p s) atom old made ?_ ?_
  · intro s hs
    cases hs
  · intro s items hs hitems u hu
    rcases List.mem_cons.mp hu with rfl | hu
    · exact hs
    · exact hitems u hu

/-- The likeness of a value that was there before. -/
def ofValue : Value → Likeness
  | .atom a => .atom a
  | .ref i => .old i

theorem ofValue_ne_none {v : Value} (h : v ≠ .none) : ofValue v ≠ .atom .none := by
  cases v with
  | atom a =>
    intro heq
    cases heq
    exact h rfl
  | ref i => simp [ofValue]

end Likeness

namespace World

/-- A value has a likeness, where objects with numbers below a given one were there before. -/
inductive IsLike (w : World) (lo : Nat) : Value → Likeness → Prop
  | atom (a : Atom) : IsLike w lo (.atom a) (.atom a)
  | old {i : Nat} (h : i < lo) : IsLike w lo (.ref i) (.old i)
  | made {i : Nat} {frame : Frame} {vs : List Value} {items : List Likeness} (hnew : lo ≤ i)
      (hobject : w.objects[i]? = some (frame.holding vs)) (hsuits : frame.Suits vs.length)
      (hitems : List.Forall₂ (IsLike w lo) vs items) : IsLike w lo (.ref i) (.made frame items)

/-! ## How far down what was made goes -/

/-- An object shows another one, which is there and was made since. -/
def ShowsNew (w : World) (lo i j : Nat) : Prop := lo ≤ j ∧ w.ShowsObject i j

/-- What was made since, from a value downwards, ends within so many steps. -/
def EndsBy (w : World) (lo n : Nat) (v : Value) : Prop :=
  ∀ i, v = .ref i → lo ≤ i → i < w.objects.size → Within (w.ShowsNew lo) n i

variable {w w' : World} {lo n m i : Nat} {v v' : Value} {s : Likeness} {o : Object Value}

theorem EndsBy.mono (h : w.EndsBy lo n v) (hle : n ≤ m) : w.EndsBy lo m v :=
  fun i hi hlo hsize => (h i hi hlo hsize).mono hle

theorem endsBy_atom (a : Atom) : w.EndsBy lo n (.atom a) := nofun

theorem endsBy_old (h : i < lo) : w.EndsBy lo n (.ref i) := by
  intro j hj hle
  cases hj
  omega

/-- An object ends after its parts. -/
theorem exists_endsBy_of_shown (ho : w.objects[i]? = some o)
    (h : ∀ p ∈ o.shown, ∃ n, w.EndsBy lo n p) : ∃ n, w.EndsBy lo n (.ref i) := by
  obtain ⟨n, hn⟩ := exists_bound_of_forall (p := w.EndsBy lo) (fun hle h => h.mono hle) h
  refine ⟨n + 1, fun j hj _ _ k hk => ?_⟩
  cases hj
  obtain ⟨hlo, hsize, p, hp, hshown⟩ := hk
  rw [ho, Option.some.injEq] at hp
  exact hn (.ref k) (hp ▸ hshown) k rfl hlo hsize

/-- The parts of an object that was made since end before it. -/
theorem EndsBy.shown (h : w.EndsBy lo n (.ref i)) (hlo : lo ≤ i) (ho : w.objects[i]? = some o) :
    ∃ k, n = k + 1 ∧ ∀ p ∈ o.shown, w.EndsBy lo k p := by
  have hwithin := h i rfl hlo (lt_size ho)
  cases n with
  | zero => exact hwithin.elim
  | succ n =>
    refine ⟨n, rfl, fun p hp j hj hle hsize => ?_⟩
    subst hj
    exact hwithin j ⟨hle, hsize, o, ho, hp⟩

/-- What ends, ends within as many steps as there are objects. -/
theorem EndsBy.bounded (h : w.EndsBy lo n v) : w.EndsBy lo w.objects.size v :=
  fun i hi hlo hsize => Within.of_bounded (fun _ _ hij => hij.2.1) hsize (h i hi hlo hsize)

theorem IsLike.exists_endsBy (h : w.IsLike lo v s) : ∃ n, w.EndsBy lo n v := by
  induction s generalizing v with
  | atom a =>
    cases h
    exact ⟨0, endsBy_atom a⟩
  | old i =>
    cases h with
    | old hlt => exact ⟨0, endsBy_old hlt⟩
  | made frame items ih =>
    cases h with
    | @made i _ vs _ hnew hobject hsuits hitems =>
      refine exists_endsBy_of_shown hobject fun p hp => ?_
      rcases Frame.mem_of_shown hp with ⟨k, rfl⟩ | hp
      · exact ⟨0, endsBy_atom _⟩
      · obtain ⟨s, hs, hlike⟩ := exists_mem_of_forall₂ hitems.flip hp
        exact ih s hs hlike

/-! ## Values of one likeness -/

/-- New objects of one likeness are equal where their items are the same. -/
theorem eq_of_items (frame : Frame) {i j depth : Nat} {vs vs' : List Value}
    (hi : w.objects[i]? = some (frame.holding vs)) (hj : w.objects[j]? = some (frame.holding vs'))
    (hsuits : frame.Suits vs.length)
    (h : List.Forall₂ (fun v v' =>
      (w.unfold true depth v).same (w.unfold true depth v') = true) vs vs') :
    (w.unfold true (depth + 1) (.ref i)).eq (w.unfold true (depth + 1) (.ref j)) = true := by
  rw [unfold_ref hi, unfold_ref hj]
  exact frame.eq_holding (fun a => unfold_atom w true depth a) hsuits h

/-- Values of one likeness are the same as items, and equal unless they were there before. -/
theorem IsLike.same_and_eq (h : w.IsLike lo v s) (h' : w.IsLike lo v' s)
    (hends : w.EndsBy lo n v) {depth : Nat} (hle : n ≤ depth) :
    (w.unfold true depth v).same (w.unfold true depth v') = true ∧
      ((∀ i, s ≠ .old i) → (w.unfold true depth v).eq (w.unfold true depth v') = true) := by
  induction s generalizing v v' n depth with
  | atom a =>
    cases h
    cases h'
    refine ⟨Term.same_self _, fun _ => ?_⟩
    rw [unfold_atom, Term.eq, Atom.eq_self]
  | old i =>
    cases h
    cases h'
    exact ⟨Term.same_self _, fun hold => absurd rfl (hold i)⟩
  | made frame items ih =>
    cases h with
    | made hnew hobject hsuits hitems =>
      cases h' with
      | made hnew' hobject' hsuits' hitems' =>
        obtain ⟨k, rfl, hparts⟩ := hends.shown hnew hobject
        obtain ⟨depth, rfl⟩ := Nat.exists_eq_add_of_le' (Nat.le_trans (Nat.succ_pos k) hle)
        have heq := eq_of_items frame hobject hobject' hsuits <|
          forall₂_join hitems hitems' fun v hv v' s hs h h' => (ih s hs h h'
            (hparts v (Frame.mem_shown hsuits hv)) (Nat.le_of_succ_le_succ hle)).1
        exact ⟨Bool.or_eq_true_iff.mpr (.inr heq), fun _ => heq⟩

/-! ## Objects that equal themselves -/

end World

/--
An object that equals itself as the field of a node: not the float that is no number, nor a node,
which would have fields in its turn.  The keys of a map are atoms of which none equals another.
-/
def Object.Steady : Object Value → Prop
  | .notANumber | .node _ => False
  | .map entries => ∃ keys items, (Frame.map keys).Suits items.length ∧
      .map entries = (Frame.map keys).holding items
  | _ => True

theorem Object.Steady.eq_self {i : Nat} {o : Object Value} {f inside aside : Value → Term}
    (h : o.Steady) (hatom : ∀ a, f (.atom a) = .atom a) :
    Term.eq (.object i (o.mapParts f inside aside)) (.object i (o.mapParts f inside aside)) =
      true := by
  have hrefl : ∀ vs : List Value, List.Forall₂ (fun v v' => (f v).same (f v') = true) vs vs :=
    fun vs => List.forall₂_same.mpr fun v _ => Term.same_self _
  cases o with
  | notANumber => exact h.elim
  | node n => exact h.elim
  | list items => exact Frame.eq_holding .list hatom trivial (hrefl items)
  | tuple items => exact Frame.eq_holding .tuple hatom trivial (hrefl items)
  | map entries =>
    obtain ⟨keys, items, hsuits, heq⟩ := h
    rw [heq]
    exact Frame.eq_holding (.map keys) hatom hsuits (hrefl items)
  | frozenSet items => simp [Object.mapParts, Term.eq, Term.allAmong_of_subset (List.Subset.refl _)]
  | _ => simp [Object.mapParts, Term.eq]

namespace World

variable {w₀ w w' : World} {lo n i : Nat} {v v' : Value} {s : Likeness}

/-- An object is there and equals itself. -/
def Steady (w : World) (i : Nat) : Prop := ∃ o, w.objects[i]? = some o ∧ o.Steady

/-- What equals itself does so however far it is unfolded, whatever else is made. -/
theorem Steady.eq_self (h : w₀.Steady i) (hkeep : w₀.Retains 0 w) (depth : Nat) :
    (w.unfold true depth (.ref i)).eq (w.unfold true depth (.ref i)) = true := by
  obtain ⟨o, ho, hsteady⟩ := h
  cases depth with
  | zero =>
    show Term.eq (.object i .unseen) (.object i .unseen) = true
    simp [Term.eq]
  | succ depth =>
    rw [unfold_ref (hkeep.kept (Nat.zero_le _) ho)]
    exact hsteady.eq_self fun a => unfold_atom w true depth a

/-- Values of one likeness are equal, unless they are an old object that does not equal itself. -/
theorem IsLike.eq (h : w.IsLike w₀.objects.size v s) (h' : w.IsLike w₀.objects.size v' s)
    (hkeep : w₀.Retains 0 w) (hsteady : ∀ i, s = .old i → w₀.Steady i)
    (hends : w.EndsBy w₀.objects.size n v) {depth : Nat} (hle : n ≤ depth) :
    (w.unfold true depth v).eq (w.unfold true depth v') = true := by
  obtain ⟨-, heq⟩ := h.same_and_eq h' hends hle
  cases s with
  | old i =>
    cases h
    cases h'
    exact (hsteady i rfl).eq_self hkeep depth
  | atom a => exact heq nofun
  | made frame items => exact heq nofun

end World

/-! ## Features -/

/-- The fields of a node beside its name and its children. -/
def Node.traits {α : Type} (n : Node α) : List α :=
  [n.isVoid, n.id, n.classes, n.style, n.listeners, n.attrs, n.content]

/--
What a node is beside its children.  It has a name, and no field is missing that a new node would
have to find for itself.
-/
structure Features where
  name : String
  isVoid : Likeness
  id : Likeness
  classes : Likeness
  style : Likeness
  listeners : Likeness
  attrs : Likeness
  content : Likeness
  named : name ≠ ""
  isVoid_given : isVoid ≠ .atom .none
  classes_given : classes ≠ .atom .none
  listeners_given : listeners ≠ .atom .none
  attrs_given : attrs ≠ .atom .none

/-- The features beside the name. -/
def Features.traits (h : Features) : List Likeness :=
  [h.isVoid, h.id, h.classes, h.style, h.listeners, h.attrs, h.content]

namespace World

/-- A node has features, where the objects of another world were there before. -/
structure HasFeatures (w₀ w : World) (n : Node Value) (h : Features) : Prop where
  name : n.name = .text h.name
  like : List.Forall₂ (w.IsLike w₀.objects.size) n.traits h.traits
  steady : ∀ i, .old i ∈ h.traits → w₀.Steady i

/-- What is there has features. -/
def FeaturesAt (w₀ w : World) (i : Nat) (h : Features) : Prop :=
  ∃ n, w.objects[i]? = some (.node n) ∧ w₀.HasFeatures w n h

/-- Nodes keep their fields but for the children, and what can be held stays held. -/
structure KeepsFields (w w' : World) : Prop where
  node : ∀ {i : Nat} {n : Node Value}, w.objects[i]? = some (.node n) →
    ∃ children, w'.objects[i]? = some (.node { n with children := children })
  held : ∀ {i : Nat} {frame : Frame} {vs : List Value},
    w.objects[i]? = some (frame.holding vs) → w'.objects[i]? = some (frame.holding vs)

variable {w₀ w w' : World} {lo i : Nat} {n : Node Value} {h : Features} {v : Value} {s : Likeness}

theorem Retains.keepsFields (hkeep : w.Retains 0 w') : w.KeepsFields w' where
  node {_ n} hn := ⟨n.children, hkeep.kept (Nat.zero_le _) hn⟩
  held hobject := hkeep.kept (Nat.zero_le _) hobject

theorem KeepsFields.trans {w₁ : World} (h : w.KeepsFields w₁) (h' : w₁.KeepsFields w') :
    w.KeepsFields w' where
  node hn := by
    obtain ⟨_, hn₁⟩ := h.node hn
    obtain ⟨children, hn'⟩ := h'.node hn₁
    exact ⟨children, hn'⟩
  held hobject := h'.held (h.held hobject)

/-- A node is given other children. -/
theorem keepsFields_replace (hn : w.objects[i]? = some (.node n)) (children : Value) :
    w.KeepsFields (w.replace i (.node { n with children := children })) where
  node {j m} hm := by
    by_cases hji : j = i
    · subst hji
      rw [hn, Option.some.injEq, Object.node.injEq] at hm
      subst hm
      exact ⟨children, get_replace_self (lt_size hn)⟩
    · exact ⟨m.children, by rw [get_replace_ne hji, hm]⟩
  held {j frame vs} hobject := by
    have hji : j ≠ i := by
      rintro rfl
      rw [hn] at hobject
      cases frame <;> cases hobject
    rw [get_replace_ne hji, hobject]

theorem IsLike.keep (hlike : w.IsLike lo v s) (hkeep : w.KeepsFields w') : w'.IsLike lo v s := by
  induction s generalizing v with
  | atom a =>
    cases hlike
    exact .atom a
  | old i =>
    cases hlike with
    | old hlt => exact .old hlt
  | made frame items ih =>
    cases hlike with
    | made hnew hobject hsuits hitems =>
      exact .made hnew (hkeep.held hobject) hsuits
        (forall₂_imp_of_mem hitems fun s hs _ hlike => ih s hs hlike)

theorem HasFeatures.keep (hh : w₀.HasFeatures w n h) (hkeep : w.KeepsFields w') :
    w₀.HasFeatures w' n h where
  name := hh.name
  like := hh.like.imp fun _ _ hlike => hlike.keep hkeep
  steady := hh.steady

/-- The children of a node are not among its features. -/
theorem HasFeatures.withChildren (hh : w₀.HasFeatures w n h) (children : Value) :
    w₀.HasFeatures w { n with children := children } h where
  name := hh.name
  like := hh.like
  steady := hh.steady

theorem FeaturesAt.keep (hh : w₀.FeaturesAt w i h) (hkeep : w.KeepsFields w') :
    w₀.FeaturesAt w' i h := by
  obtain ⟨n, hn, hfeatures⟩ := hh
  obtain ⟨children, hn'⟩ := hkeep.node hn
  exact ⟨_, hn', (hfeatures.keep hkeep).withChildren children⟩

/-- What is like something is missing only if that is. -/
theorem IsLike.ne_none (hlike : w.IsLike lo v s) (hs : s ≠ .atom .none) : v ≠ .none := by
  rintro rfl
  cases hlike
  exact hs rfl

/-- A node with features can be frozen. -/
theorem HasFeatures.freezable (hh : w₀.HasFeatures w n h) : n.Freezable := by
  obtain ⟨hisVoid, -, hclasses, -, hlisteners, hattrs, -⟩ : _ ∧ _ ∧ _ ∧ _ ∧ _ ∧ _ ∧ _ := by
    simpa [Node.traits, Features.traits] using hh.like
  exact ⟨⟨hisVoid.ne_none h.isVoid_given, hclasses.ne_none h.classes_given,
    hlisteners.ne_none h.listeners_given, hattrs.ne_none h.attrs_given⟩, h.name, hh.name, h.named⟩

/-- A node of which each field is an atom or equals itself has features. -/
theorem exists_hasFeatures (hfreezable : n.Freezable)
    (hsteady : ∀ i, .ref i ∈ n.traits → w.Steady i) : ∃ h, w.HasFeatures w n h := by
  obtain ⟨tag, hname, hne⟩ := hfreezable.name
  let h : Features := {
    name := tag
    isVoid := .ofValue n.isVoid
    id := .ofValue n.id
    classes := .ofValue n.classes
    style := .ofValue n.style
    listeners := .ofValue n.listeners
    attrs := .ofValue n.attrs
    content := .ofValue n.content
    named := hne
    isVoid_given := Likeness.ofValue_ne_none hfreezable.isVoid
    classes_given := Likeness.ofValue_ne_none hfreezable.classes
    listeners_given := Likeness.ofValue_ne_none hfreezable.listeners
    attrs_given := Likeness.ofValue_ne_none hfreezable.attrs }
  have htraits : h.traits = n.traits.map Likeness.ofValue := rfl
  refine ⟨h, hname, ?_, ?_⟩
  · rw [htraits, List.forall₂_map_right_iff, List.forall₂_same]
    intro v hv
    cases v with
    | atom a => exact .atom a
    | ref i =>
      obtain ⟨o, ho, -⟩ := hsteady i hv
      exact .old (lt_size ho)
  · intro i hi
    rw [htraits] at hi
    obtain ⟨v, hv, heq⟩ := List.mem_map.mp hi
    cases v with
    | atom a => cases heq
    | ref j =>
      cases heq
      exact hsteady i hv

end World

end Markup
