import Markup.Proofs.Store.Extension
import Mathlib.Data.List.Nodup
import Mathlib.Data.List.Perm.Subperm

/-!
# What unfolding a value depends on

A value that does not contain itself (`World.Ends`) is unfolded to its end within as many steps as
there are objects (`Within.of_bounded`), so that a greater depth shows nothing more of it.  So what
it unfolds to depends only on the objects that it reaches (`World.Reaches`): what is made or
changed elsewhere does not show (`World.Avoids.unfold_eq`).
-/

namespace Markup

/-! ## The parts of an object -/

section Parts

variable {α β : Type}

/-- The fields of a node. -/
def Node.parts (n : Node α) : List α :=
  [n.name, n.isVoid, n.id, n.classes, n.style, n.listeners, n.attrs, n.content, n.children]

namespace Object

/-- What an object shows of itself. -/
def shown : Object α → List α
  | .list items | .tuple items | .frozenSet items | .error _ items _ => items
  | .map entries => entries.flatMap fun e => [e.1, e.2]
  | .node n => n.parts
  | .constructor c => [c.name, c.isVoid]
  | .registry r => r.constructors.map (·.1)
  | .element e => [e.name]
  | .listener name _ _ _ => [name]
  | .textNode data _ => [data]
  | _ => []

/-- What is inside an object, and what it only keeps. -/
def kept : Object α → List α
  | .listener _ _ _ extras | .stranger _ extras | .error _ _ extras | .textNode _ extras
  | .memoryDocument extras => extras.map (·.2)
  | .registry r => r.voidTags :: (r.constructors.map (·.2) ++ r.extras.map (·.2))
  | .element e => [e.document, e.isVoid, e.id, e.className, e.attributes, e.listeners,
      e.childNodes] ++ e.extras.map (·.2)
  | .recordingDocument r => r.tracing :: (r.listing.toList ++ r.extras.map (·.2))
  | .browserDocument p extras => p :: extras.map (·.2)
  | _ => []

theorem mapNamed_congr {f f' : α → β} {parts : List (String × α)}
    (h : ∀ p ∈ parts.map (·.2), f p = f' p) : mapNamed f parts = mapNamed f' parts := by
  refine List.map_congr_left fun e he => ?_
  rw [h e.2 (List.mem_map_of_mem he)]

/-- An object over other parts is told by what becomes of its own parts. -/
theorem mapParts_congr {f f' inside inside' aside aside' : α → β} {o : Object α}
    (hshown : ∀ p ∈ o.shown, f p = f' p) (hinside : ∀ p ∈ o.kept, inside p = inside' p)
    (haside : ∀ p ∈ o.kept, aside p = aside' p) :
    o.mapParts f inside aside = o.mapParts f' inside' aside' := by
  cases o with
  | list items => exact congrArg list (List.map_congr_left hshown)
  | tuple items => exact congrArg tuple (List.map_congr_left hshown)
  | frozenSet items => exact congrArg frozenSet (List.map_congr_left hshown)
  | map entries =>
    refine congrArg map (List.map_congr_left fun e he => ?_)
    have hparts := fun p hp => hshown p (List.mem_flatMap.mpr ⟨e, he, hp⟩)
    exact Prod.ext (hparts e.1 (by simp)) (hparts e.2 (by simp))
  | node n => simp_all [mapParts, shown, Node.parts, Node.map]
  | constructor c => simp_all [mapParts, shown, Constructor.map]
  | registry r =>
    have hentries : r.constructors.map (Prod.map f aside) =
        r.constructors.map (Prod.map f' aside') := by
      refine List.map_congr_left fun e he => Prod.ext (hshown e.1 (List.mem_map_of_mem he)) ?_
      exact haside e.2 (List.mem_cons_of_mem _ (List.mem_append_left _ (List.mem_map_of_mem he)))
    have hextras : mapNamed aside r.extras = mapNamed aside' r.extras :=
      mapNamed_congr fun p hp => haside p (List.mem_cons_of_mem _ (List.mem_append_right _ hp))
    rw [mapParts, mapParts, Registry.map, Registry.map, hentries, hextras, haside r.voidTags]
    exact List.mem_cons_self
  | element e =>
    have hextras : mapNamed aside e.extras = mapNamed aside' e.extras :=
      mapNamed_congr fun p hp => haside p (List.mem_append_right _ hp)
    simp_all [mapParts, shown, kept, Element.map]
  | recordingDocument r =>
    have hextras : mapNamed aside r.extras = mapNamed aside' r.extras :=
      mapNamed_congr fun p hp => haside p (List.mem_cons_of_mem _ (List.mem_append_right _ hp))
    have hlisting : r.listing.map aside = r.listing.map aside' := by
      cases hr : r.listing with
      | none => rfl
      | some v => exact congrArg some (haside v (by simp [kept, hr]))
    rw [mapParts, mapParts, Recording.map, Recording.map, hextras, hlisting, haside r.tracing]
    exact List.mem_cons_self
  | browserDocument page extras =>
    have hextras : mapNamed aside extras = mapNamed aside' extras :=
      mapNamed_congr fun p hp => haside p (List.mem_cons_of_mem _ hp)
    rw [mapParts, mapParts, hextras, haside page List.mem_cons_self]
  | error c arguments extras =>
    have harguments : arguments.map f = arguments.map f' := List.map_congr_left hshown
    rw [mapParts, mapParts, mapNamed_congr haside, harguments]
  | listener name refusal extras =>
    rw [mapParts, mapParts, mapNamed_congr haside, hshown name List.mem_cons_self]
  | textNode data extras =>
    rw [mapParts, mapParts, mapNamed_congr haside, hshown data List.mem_cons_self]
  | stranger name extras => rw [mapParts, mapParts, mapNamed_congr haside]
  | memoryDocument extras => rw [mapParts, mapParts, mapNamed_congr haside]
  | buffer bytes => rfl
  | notANumber => rfl
  | foreign typeName => rfl
  | unseen => rfl

end Object

end Parts

/-! ## How far down -/

/-- Every way down from a number, by what is directly below, ends within so many steps. -/
def Within (below : Nat → Nat → Prop) : Nat → Nat → Prop
  | 0, _ => False
  | n + 1, i => ∀ j, below i j → Within below n j

namespace Within

variable {below : Nat → Nat → Prop} {n m i size : Nat}

theorem mono (h : Within below n i) (hle : n ≤ m) : Within below m i := by
  induction n generalizing m i with
  | zero => cases h
  | succ n ih =>
    obtain ⟨m, rfl⟩ := Nat.exists_eq_add_of_le' (Nat.le_trans (Nat.succ_pos n) hle)
    exact fun j hj => ih (h j hj) (Nat.le_of_succ_le_succ hle)

/-- Where less lies below, every way down ends no later. -/
theorem imp {below' : Nat → Nat → Prop} (h : Within below n i)
    (himp : ∀ i j, below' i j → below i j) : Within below' n i := by
  induction n generalizing i with
  | zero => cases h
  | succ n ih => exact fun j hj => ih (h j (himp i j hj))

/-- Where a way down is as long as it can be, the numbers on it are different. -/
theorem exists_chain (hsize : ∀ i j, below i j → j < size) (hi : i < size)
    (h : Within below (n + 1) i) (hnot : ¬ Within below n i) :
    ∃ chain : List Nat, chain.length = n + 1 ∧ chain.Nodup ∧
      ∀ j ∈ chain, j < size ∧ Within below (n + 1) j := by
  induction n generalizing i with
  | zero => exact ⟨[i], rfl, List.nodup_singleton i, by simpa using ⟨hi, h⟩⟩
  | succ n ih =>
    obtain ⟨j, hbelow, hj⟩ : ∃ j, below i j ∧ ¬ Within below n j := by
      by_contra hall
      push Not at hall
      exact hnot hall
    obtain ⟨chain, hlength, hnodup, hchain⟩ := ih (hsize i j hbelow) (h j hbelow) hj
    refine ⟨i :: chain, by rw [List.length_cons, hlength], ?_, ?_⟩
    · exact List.nodup_cons.mpr ⟨fun hmem => hnot (hchain i hmem).2, hnodup⟩
    · rw [List.forall_mem_cons]
      exact ⟨⟨hi, h⟩, fun k hk => ⟨(hchain k hk).1, (hchain k hk).2.mono (Nat.le_succ _)⟩⟩

/-- No way down that ends is longer than there are numbers. -/
theorem of_bounded (hsize : ∀ i j, below i j → j < size) (hi : i < size)
    (h : Within below n i) : Within below size i := by
  induction n with
  | zero => cases h
  | succ n ih =>
    by_cases hnot : Within below n i
    · exact ih hnot
    · obtain ⟨chain, hlength, hnodup, hchain⟩ := exists_chain hsize hi h hnot
      have hsubset : chain ⊆ List.range size := fun j hj => List.mem_range.mpr (hchain j hj).1
      have hle := (hnodup.subperm hsubset).length_le
      rw [hlength, List.length_range] at hle
      exact h.mono hle

end Within

/-! ## What unfolding depends on -/

namespace World

/-- An object shows another one, which is there. -/
def ShowsObject (w : World) (i j : Nat) : Prop :=
  j < w.objects.size ∧ ∃ o, w.objects[i]? = some o ∧ .ref j ∈ o.shown

/-- A value does not contain itself, nor anything that is not there. -/
inductive Ends (w : World) : Value → Prop
  | atom (a : Atom) : Ends w (.atom a)
  | ref {id : Nat} {o : Object Value} (object : w.objects[id]? = some o)
      (below : ∀ p ∈ o.shown, Ends w p) : Ends w (.ref id)

/-- An object can be reached from a value, by whatever parts. -/
inductive Reaches (w : World) : Value → Nat → Prop
  | here (id : Nat) : Reaches w (.ref id) id
  | through {id i : Nat} {o : Object Value} {p : Value} (object : w.objects[id]? = some o)
      (part : p ∈ o.shown ++ o.kept) (rest : Reaches w p i) : Reaches w (.ref id) i

variable {w w' : World} {v : Value} {opened : Nat → Prop}

/-- Values that each come to an end within some number of steps do so within a common one. -/
theorem exists_bound_of_forall {ps : List Value} {p : Nat → Value → Prop}
    (hmono : ∀ {n m v}, n ≤ m → p n v → p m v) (h : ∀ v ∈ ps, ∃ n, p n v) :
    ∃ n, ∀ v ∈ ps, p n v := by
  induction ps with
  | nil => exact ⟨0, fun v hv => nomatch hv⟩
  | cons v ps ih =>
    rw [List.forall_mem_cons] at h
    obtain ⟨n, hn⟩ := h.1
    obtain ⟨m, hm⟩ := ih h.2
    refine ⟨n + m, List.forall_mem_cons.mpr ⟨hmono (Nat.le_add_right n m) hn, fun u hu => ?_⟩⟩
    exact hmono (Nat.le_add_left m n) (hm u hu)

theorem Ends.lt_size {id : Nat} (h : w.Ends (.ref id)) : id < w.objects.size := by
  cases h with
  | ref object below => exact World.lt_size object

/-- What does not contain itself comes to an end within as many steps as there are objects. -/
theorem Ends.within {id : Nat} (h : w.Ends (.ref id)) :
    Within w.ShowsObject w.objects.size id := by
  have hall : ∀ v, w.Ends v → ∃ n, ∀ i, v = .ref i → Within w.ShowsObject n i := by
    intro v hv
    induction hv with
    | atom a => exact ⟨0, fun i hi => nomatch hi⟩
    | @ref id o object _ ih =>
      obtain ⟨n, hn⟩ := exists_bound_of_forall (fun hle h i hi => (h i hi).mono hle) ih
      refine ⟨n + 1, fun i hi j hj => ?_⟩
      cases hi
      obtain ⟨p, hp, hshown⟩ := hj.2
      rw [object, Option.some.injEq] at hp
      exact hn (.ref j) (hp ▸ hshown) j rfl
  obtain ⟨n, hn⟩ := hall _ h
  exact Within.of_bounded (fun i j hij => hij.1) h.lt_size (hn id rfl)

/-- A greater depth shows nothing more of what comes to an end. -/
theorem Ends.unfoldWith_eq {aside : Value → Term} {n m : Nat} (h : w.Ends v)
    (hn : ∀ i, v = .ref i → Within w.ShowsObject n i) (hle : n ≤ m) :
    w.unfoldWith true aside m v = w.unfoldWith true aside n v := by
  induction n generalizing v m with
  | zero =>
    cases h with
    | atom a => simp
    | ref object below => exact (hn _ rfl).elim
  | succ n ih =>
    cases h with
    | atom a => simp
    | @ref id o object below =>
      obtain ⟨m, rfl⟩ := Nat.exists_eq_add_of_le' (Nat.le_trans (Nat.succ_pos n) hle)
      have hparts : ∀ p ∈ o.shown, w.unfoldWith true aside m p = w.unfoldWith true aside n p := by
        intro p hp
        refine ih (below p hp) (fun i hi => ?_) (Nat.le_of_succ_le_succ hle)
        subst hi
        exact hn id rfl i ⟨(below _ hp).lt_size, o, object, hp⟩
      rw [unfoldWith, unfoldWith, object]
      exact congrArg (Term.object id)
        (Object.mapParts_congr hparts (fun _ _ => rfl) (fun _ _ => rfl))

/-- What a value unfolds to is told by the objects that it reaches. -/
theorem unfoldWith_eq_of_reaches {closed : Bool} {aside aside' : Value → Term} {depth : Nat}
    (haside : ∀ p, (∀ i, w.Reaches p i → w'.objects[i]? = w.objects[i]?) → aside' p = aside p)
    (h : ∀ i, w.Reaches v i → w'.objects[i]? = w.objects[i]?) :
    w'.unfoldWith closed aside' depth v = w.unfoldWith closed aside depth v := by
  induction depth generalizing v with
  | zero => cases v <;> rfl
  | succ depth ih =>
    cases v with
    | atom a => simp
    | ref id =>
      rw [unfoldWith, unfoldWith, h id (.here id)]
      cases ho : w.objects[id]? with
      | none => rfl
      | some o =>
        have hpart : ∀ p ∈ o.shown ++ o.kept, ∀ i, w.Reaches p i →
            w'.objects[i]? = w.objects[i]? := fun p hp i hi => h i (.through ho hp hi)
        have hshown := fun p hp => ih (hpart p (List.mem_append_left _ hp))
        have hkept := fun p hp => haside p (hpart p (List.mem_append_right _ hp))
        have hinside := fun p hp => ih (hpart p (List.mem_append_right _ hp))
        refine congrArg (Term.object id) (Object.mapParts_congr hshown ?_ hkept)
        cases closed
        · exact hinside
        · exact hkept

/-- A value does not contain itself, and reaches only objects that are there and stay closed. -/
structure Avoids (w : World) (opened : Nat → Prop) (v : Value) : Prop where
  ends : w.Ends v
  spared : ∀ i, w.Reaches v i → i < w.objects.size ∧ ¬ opened i

theorem Avoids.atom (w : World) (opened : Nat → Prop) (a : Atom) : w.Avoids opened (.atom a) :=
  ⟨.atom a, fun _ hi => nomatch hi⟩

/-- What is made, or changed where a value does not reach, does not show when it is unfolded. -/
theorem Avoids.unfold_eq (h : w.Avoids opened v) (hchanges : w.ChangesOnly opened w') {n m : Nat}
    (hn : w.objects.size ≤ n) (hm : w.objects.size ≤ m) :
    w'.unfold true m v = w.unfold true n v := by
  have hsame : ∀ i, w.Reaches v i → w'.objects[i]? = w.objects[i]? := by
    intro i hi
    obtain ⟨hlt, hclosed⟩ := h.spared i hi
    obtain ⟨o, ho⟩ := exists_of_lt_size hlt
    rw [ho, hchanges.spared ho hclosed]
  have hglance : ∀ p, (∀ i, w.Reaches p i → w'.objects[i]? = w.objects[i]?) →
      w'.glance p = w.glance p :=
    fun p hp => unfoldWith_eq_of_reaches (fun _ _ => rfl) hp
  have hdeep : ∀ m, w.objects.size ≤ m → w.unfold true m v = w.unfold true w.objects.size v :=
    fun m hm => h.ends.unfoldWith_eq (fun i hi => (hi ▸ h.ends).within) hm
  calc w'.unfold true m v
      = w.unfold true m v := unfoldWith_eq_of_reaches hglance hsame
    _ = w.unfold true w.objects.size v := hdeep m hm
    _ = w.unfold true n v := (hdeep n hn).symm

theorem Avoids.read_eq (h : w.Avoids opened v) (hchanges : w.ChangesOnly opened w') :
    w'.read v = w.read v :=
  h.unfold_eq hchanges (Nat.le_succ _) (Nat.le_succ_of_le hchanges.size_le)

theorem Avoids.readPart_eq (h : w.Avoids opened v) (hchanges : w.ChangesOnly opened w') :
    w'.readPart v = w.readPart v :=
  h.unfold_eq hchanges (Nat.le_refl _) hchanges.size_le

end World

end Markup
