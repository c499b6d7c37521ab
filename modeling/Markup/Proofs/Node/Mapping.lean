import Markup.Proofs.Node.Features
import Markup.Proofs.Node.Copies

/-!
# Traversing with a function

A visitor is a function where it never fails and changes nothing that was there, and where what it
answers is told by what it is handed: a function of features (`Operation.Computes`).  Such visitors
compose (`Operation.Computes.comp`).  A traversal with one of them applies the function to the
features of each node: it builds a new tree of the same form, with the same texts, and leaves the
tree as it was (`Operation.exists_traverse`).
-/

namespace Markup

namespace World

/-- A node with features is turned into one of which the features are told by them. -/
structure Mapped (w₀ w : World) (φ : Features → Features) (w' : World) (i j : Nat) : Prop where
  has : ∃ h, w₀.FeaturesAt w i h
  maps : ∀ h, w₀.FeaturesAt w i h → w₀.FeaturesAt w' j (φ h)

variable {w₀ w w₁ w' : World} {φ ψ : Features → Features} {i j k : Nat}

theorem Mapped.keep (h : w₀.Mapped w φ w₁ i j) (hkeep : w₁.KeepsFields w') :
    w₀.Mapped w φ w' i j where
  has := h.has
  maps f hf := (h.maps f hf).keep hkeep

theorem Mapped.trans (h : w₀.Mapped w φ w₁ i j) (h' : w₀.Mapped w₁ ψ w' j k) :
    w₀.Mapped w (ψ ∘ φ) w' i k where
  has := h.has
  maps f hf := h'.maps _ (h.maps f hf)

theorem Mapped.has_right (h : w₀.Mapped w φ w' i j) : ∃ h, w₀.FeaturesAt w' j h := by
  obtain ⟨f, hf⟩ := h.has
  exact ⟨φ f, h.maps f hf⟩

end World

namespace Operation

open World

/--
A visitor is a function of features, where the objects of a world were there before.  Whenever it
is handed a frozen node with features, it answers with this node or with a new one, whatever the
children of that are, and the answer has the features that the function says.
-/
structure Computes (w₀ : World) (f : Value → Operation Value) (φ : Features → Features) : Prop where
  answers : ∀ {w : World} {i l : Nat} {n : Node Value} {h : Features}, w₀.Retains 0 w →
    w.objects[i]? = some (.node n) → n.children = .ref l → w.objects[l]? = some (.list []) →
    w₀.HasFeatures w n h →
    ∃ j w', (f (.ref i)).runIn w = (.ok (.ref j), w') ∧ w.Retains 0 w' ∧
      (j = i ∨ w.objects.size ≤ j) ∧ w₀.FeaturesAt w' j (φ h)

variable {w₀ w w' u : World} {f g : Value → Operation Value} {φ ψ : Features → Features}

/-- Handing the node back is a function. -/
theorem computes_pure (w₀ : World) : Computes w₀ pure id where
  answers {w i _ n _} _ hn _ _ hh := ⟨i, w, rfl, .refl _ w, .inl rfl, n, hn, hh⟩

/-- What a function does with the frozen copy of a node that was there. -/
theorem Computes.on_copy (hf : Computes w₀ f φ) (hkeep : w₀.Retains 0 w) {n : Node Value}
    (hhas : ∃ h, w₀.HasFeatures w n h) :
    ∃ j w', (freezeNode n >>= f).runIn w = (.ok (.ref j), w') ∧
      (w.withFrozenCopy n).Retains 0 w' ∧ w.objects.size ≤ j ∧
      ∀ h, w₀.HasFeatures w n h → w₀.FeaturesAt w' j (φ h) := by
  have hcopy := retains_withFrozenCopy w n
  have hcall := fun h (hh : w₀.HasFeatures w n h) => hf.answers (hkeep.trans hcopy)
    get_withFrozenCopy_node rfl get_withFrozenCopy_list
    ((hh.keep hcopy.keepsFields).withChildren _)
  obtain ⟨h, hh⟩ := hhas
  obtain ⟨j, w', hrun, hretains, hnew, -⟩ := hcall h hh
  refine ⟨j, w', ?_, hretains, ?_, fun h' hh' => ?_⟩
  · rw [runIn_bind_ok (runIn_freezeNode hh.freezable w), hrun]
  · rw [size_withFrozenCopy] at hnew
    omega
  · -- the call is the same, whatever features are considered
    obtain ⟨j', w'', hrun', -, -, hfeatures⟩ := hcall h' hh'
    rw [hrun, Prod.mk.injEq, Except.ok.injEq, Value.ref.injEq] at hrun'
    obtain ⟨rfl, rfl⟩ := hrun'
    exact hfeatures

/-- Freezing the answer of one function for another one is a function. -/
theorem Computes.comp (hf : Computes w₀ f φ) (hg : Computes w₀ g ψ) :
    Computes w₀ (fun v => do g (← freeze (← f v))) (ψ ∘ φ) := by
  refine ⟨fun {w i l n h} hkeep hn hchildren hlist hh => ?_⟩
  obtain ⟨j, w₁, hrun, hretains, -, m, hm, hfeatures⟩ := hf.answers hkeep hn hchildren hlist hh
  obtain ⟨k, w₂, hrun', hretains', hnew, hfeatures'⟩ :=
    hg.on_copy (hkeep.trans hretains) ⟨_, hfeatures⟩
  have hsize := hretains.size_le
  refine ⟨k, w₂, ?_, (hretains.trans (retains_withFrozenCopy w₁ m)).trans hretains', .inr ?_,
    hfeatures' _ hfeatures⟩
  · show (f (.ref i) >>= fun v => freeze v >>= g).runIn w = _
    rw [runIn_bind_ok hrun, ← hrun', runIn_bind, runIn_bind, runIn_freeze hm]
  · omega

/-- A tree of a world is turned into a new one, the features of each node by a function. -/
def MapsTree (w₀ w : World) (φ : Features → Features) (x : Operation Value) (t : Skeleton) : Prop :=
  ∀ u, w.Retains 0 u → ∃ a u' t', x.runIn u = (.ok a, u') ∧ u.Retains 0 u' ∧
    u'.Spans (u.objects.size ≤ ·) a t' ∧ t.Corresponds (w₀.Mapped w φ u') t'

theorem mapsTree_mapM {x : Value → Operation Value} {vs : List Value} {ts : List Skeleton}
    (h : List.Forall₂ (fun v t => MapsTree w₀ w φ (x v) t) vs ts) (hu : w.Retains 0 u) :
    ∃ as u' us, (vs.mapM x).runIn u = (.ok as, u') ∧ u.Retains 0 u' ∧
      List.Forall₂ (u'.Spans (u.objects.size ≤ ·)) as us ∧
      List.Forall₂ (Skeleton.Corresponds (w₀.Mapped w φ u')) ts us := by
  induction h generalizing u with
  | nil => exact ⟨[], u, [], rfl, .refl _ u, .nil, .nil⟩
  | cons hv _ ih =>
    obtain ⟨a, u₁, t', hrun, hkeep, hspans, hcorresponds⟩ := hv u hu
    obtain ⟨as, u', us, hrun', hkeep', hspan, hcorrespond⟩ := ih (hu.trans hkeep)
    refine ⟨a :: as, u', t' :: us, ?_, hkeep.trans hkeep', .cons ?_ ?_, .cons ?_ hcorrespond⟩
    · rw [List.mapM_cons, runIn_bind_ok hrun, runIn_bind_ok hrun']
      rfl
    · exact hspans.later hkeep' (fun _ _ => Nat.zero_le _) fun _ hi => hi
    · exact hspan.imp fun _ _ h => h.later (.refl _ u') (fun _ _ => Nat.zero_le _) fun _ hi =>
        Nat.le_trans hkeep.size_le hi
    · exact hcorresponds.mono fun _ _ h => h.keep hkeep'.keepsFields

/-- What a traversal does with a node. -/
theorem runIn_traverseTo_node {i depth : Nat} {n : Node Value} {j : Nat} {w₁ : World}
    (hn : w.objects[i]? = some (.node n))
    (hvisit : (freezeNode n >>= f).runIn w = (.ok (.ref j), w₁)) (hkeep : w.Retains 0 w₁) :
    (traverseTo f (depth + 1) (.ref i)).runIn w = (do
      let walked ← answersOf (walkChild (traverseTo f depth)) n.children
      replaceChildren (.ref j) walked
      return .ref j : Operation Value).runIn w₁ := by
  have hasked : (askFrozen (.ref i) >>= f).runIn w = (.ok (.ref j), w₁) := by
    rw [← hvisit, runIn_bind, runIn_bind, runIn_askFrozen hn]
  have hmember : (member (.ref i) "children").runIn w₁ = (.ok n.children, w₁) :=
    runIn_member (hkeep.kept (Nat.zero_le _) hn) rfl rfl
  have hsplit : traverseTo f (depth + 1) (.ref i) = (do
      let root ← askFrozen (.ref i) >>= f
      let children ← member (.ref i) "children"
      let walked ← answersOf (walkChild (traverseTo f depth)) children
      replaceChildren root walked
      return root : Operation Value) := by
    rw [traverseTo, bind_assoc]
    rfl
  rw [hsplit, runIn_bind_ok hasked, runIn_bind_ok hmember]

/-- A node that is given new trees for its children is a new tree over them. -/
theorem exists_replaceChildren {j lo lo' : Nat} {m : Node Value} {as : List Value}
    {us : List Skeleton} (hm : u.objects[j]? = some (.node m)) (hfreezable : m.Freezable)
    (hlo : lo ≤ j) (hlt : j < lo') (hle : lo' ≤ u.objects.size)
    (hspans : List.Forall₂ (u.Spans (lo' ≤ ·)) as us) :
    ∃ u', (replaceChildren (.ref j) as).runIn u = (.ok (), u') ∧ u.ChangesOnly (· = j) u' ∧
      u.KeepsFields u' ∧ u'.Spans (lo ≤ ·) (.ref j) (.node j us) := by
  have hroot : (u.add (.list as)).objects[j]? = some (.node m) := get_add hm
  have hne : u.objects.size ≠ j := (lt_size hm).ne'
  have hchanges : u.ChangesOnly (· = j)
      ((u.add (.list as)).replace j (.node { m with children := .ref u.objects.size })) :=
    changesOnly_add.trans (changesOnly_replace rfl)
  refine ⟨_, runIn_replaceChildren hm as, hchanges, ?_, ?_⟩
  · exact (Retains.keepsFields changesOnly_add).trans (keepsFields_replace hroot _)
  · refine .node (get_replace_self (lt_size hroot)) (hfreezable.withChildren _) hlo rfl
      (by rw [get_replace_ne hne, get_add_new]) (by omega) ?_
    exact hspans.imp fun _ _ h =>
      h.later (hchanges.mono fun i hi => hi ▸ hlt) (fun _ hi => hi) fun _ hi => by omega

/-- A traversal turns a tree into a new one, node by node. -/
theorem mapsTree_traverseTo (hf : Computes w₀ f φ) (hw : w₀.Retains 0 w) {p : Nat → Prop}
    {depth i : Nat} {ts : List Skeleton} (hheight : (Skeleton.node i ts).height ≤ depth)
    (h : w.Spans p (.ref i) (.node i ts))
    (hhas : ∀ j ∈ (Skeleton.node i ts).numbers, ∃ h, w₀.FeaturesAt w j h) :
    MapsTree w₀ w φ (traverseTo f depth (.ref i)) (.node i ts) := by
  induction depth generalizing i ts with
  | zero =>
    rw [Skeleton.height] at hheight
    omega
  | succ depth ih =>
    rw [Skeleton.height] at hheight
    rw [Skeleton.numbers, List.forall_mem_cons] at hhas
    obtain ⟨⟨h₀, hi⟩, hbelow⟩ := hhas
    intro u hu
    cases h with
    | @node _ l n vs _ hn _ _ hchildren hlist _ hsub =>
      have hhere : ∀ h', w₀.FeaturesAt w i h' → w₀.HasFeatures u n h' := by
        rintro h' ⟨n', hn', hh'⟩
        rw [hn, Option.some.injEq, Object.node.injEq] at hn'
        exact hn' ▸ hh'.keep hu.keepsFields
      obtain ⟨j, u₁, hvisit, hcopied, hj, hfeatures⟩ := hf.on_copy (hw.trans hu) ⟨h₀, hhere h₀ hi⟩
      have hfirst : u.Retains 0 u₁ := (retains_withFrozenCopy u n).trans hcopied
      have hkept : w.Retains 0 u₁ := hu.trans hfirst
      have hparts : List.Forall₂ (fun v t =>
          MapsTree w₀ w φ (walkChild (traverseTo f depth) v) t) vs ts := by
        refine Spans.children hsub (Nat.le_of_succ_le_succ hheight) ?_ ?_
        · exact fun s u _ => ⟨_, u, .text s, rfl, .refl _ u, .text s, .text s⟩
        · intro k us c hmem hle hc _ h u hu
          rw [runIn_walkChild _ (hu.kept (Nat.zero_le _) hc)]
          exact ih hle h (fun m hm => hbelow m (Skeleton.mem_numbersOf.mpr ⟨_, hmem, hm⟩)) u hu
      obtain ⟨as, u₂, us, hrun, hkeep, hspans, hcorrespond⟩ := mapsTree_mapM hparts hkept
      have hall : (answersOf (walkChild (traverseTo f depth)) n.children).runIn u₁ =
          (.ok as, u₂) := by
        have hlater := hkept.kept (Nat.zero_le _) hlist
        rw [hchildren, runIn_answersOf_list hlater fun bs u' hbs => ?_, hrun]
        obtain rfl := congrArg Prod.snd (hrun.symm.trans hbs)
        exact hkeep.kept (Nat.zero_le _) hlater
      -- the root is given its children last, which leaves the trees below it as they are
      obtain ⟨m, hm, hfm⟩ := hfeatures h₀ (hhere h₀ hi)
      obtain ⟨u₃, hreplace, hchanges, hfields, htree⟩ := exists_replaceChildren
        (hkeep.kept (Nat.zero_le _) hm) hfm.freezable hj (lt_size hm) hkeep.size_le hspans
      refine ⟨.ref j, u₃, .node j us, ?_, ?_, htree, .node ⟨⟨h₀, hi⟩, fun h' hi' => ?_⟩ ?_⟩
      · rw [runIn_traverseTo_node (hu.kept (Nat.zero_le _) hn) hvisit hfirst, runIn_bind_ok hall,
          runIn_bind_ok hreplace]
        rfl
      · exact (hfirst.trans hkeep).later hchanges fun k hk => hk ▸ hj
      · exact ((hfeatures h' (hhere h' hi')).keep hkeep.keepsFields).keep hfields
      · exact hcorrespond.imp fun _ _ h => h.mono fun _ _ h => h.keep hfields

/-- A traversal with a function answers, with a new tree, and leaves all that was there. -/
theorem exists_traverse (hf : Computes w₀ f φ) (hw : w₀.Retains 0 w) {p : Nat → Prop} {i : Nat}
    {t : Skeleton} (h : w.Spans p (.ref i) t)
    (hhas : ∀ j ∈ t.numbers, ∃ h, w₀.FeaturesAt w j h) :
    ∃ j w' t', (traverse f (.ref i)).runIn w = (.ok (.ref j), w') ∧ w.Retains 0 w' ∧
      w'.Spans (w.objects.size ≤ ·) (.ref j) t' ∧ t.Corresponds (w₀.Mapped w φ w') t' := by
  have hheight : t.height ≤ w.depthBound := Nat.le_succ_of_le h.height_le
  cases h with
  | node hn hfreezable hi hchildren hlist hl hsub =>
    obtain ⟨a, w', t', hrun, hkeep, hspans, hcorresponds⟩ := mapsTree_traverseTo hf hw hheight
      (.node hn hfreezable hi hchildren hlist hl hsub) hhas w (.refl _ w)
    rw [← runIn_traverse] at hrun
    cases hcorresponds with
    | node hij hsub' =>
      cases hspans with
      | node hn' hfreezable' hi' hchildren' hlist' hl' hsub'' =>
        exact ⟨_, w', _, hrun, hkeep, .node hn' hfreezable' hi' hchildren' hlist' hl' hsub'',
          .node hij hsub'⟩

end Operation

end Markup
