import Markup.Node.Edit
import Markup.Proofs.Attributes.Merging
import Markup.Proofs.Construction.Call
import Markup.Proofs.Node.Reachable
import Markup.Proofs.Registry.Exports

/-!
# Elements as members of a registry

A registry gives the constructor of a name as an item, and as a member under a spelling of the name
(`Registry.memberName`).  In every state that a registry can be in (`World.Reached`), its
constructors are different objects, and none of them is kept for anything else
(`World.HoldsConstructors`).  So the member is the very constructor of the name exactly if the
spelling is read as the name again and no member of the registry itself comes first
(`member_is_item_iff`).
-/

namespace Markup

open Operation Registry

/-! ## States of a registry -/

namespace World

/--
A registry holds nothing but different constructors, and beside them what holds the names void by
default, which was there before.
-/
structure HoldsConstructors (w : World) (id : Nat) (r : Registry Value) : Prop where
  registry : w.objects[id]? = some (.registry r)
  plain : r.extras = []
  constructors : ∀ e ∈ r.constructors, ∃ (k : Nat) (c : Constructor Value), e.2 = .ref k ∧
    w.objects[k]? = some (.constructor c)
  distinct : (r.constructors.map (·.2)).Nodup
  void_there : w.Has r.voidTags
  void_apart : ∀ e ∈ r.constructors, e.2 ≠ r.voidTags

/--
The worlds in which a registry is found: it was made, or is the default one; names were registered
with it, of which some may have been refused; and anything may have happened elsewhere.
-/
inductive Reached (id : Nat) : World → Prop
  | default (h : id = World.defaultRegistry) : Reached id .initial
  | made {w w' : World} {tags voidTags : Value} (hvoid : w.Has voidTags)
      (hrun : (makeRegistry tags voidTags).runIn w = (.ok (.ref id), w')) : Reached id w'
  | registered {w : World} (h : Reached id w) (name flag : Value) :
      Reached id ((addElement id name flag).runIn w).2
  | elsewhere {w w' : World} (h : Reached id w) (hsize : w.objects.size ≤ w'.objects.size)
      (hkept : w'.objects[id]? = w.objects[id]?)
      (hconstructors : ∀ (k : Nat) (c : Constructor Value), w.objects[k]? = some (.constructor c) →
        ∃ c' : Constructor Value, w'.objects[k]? = some (.constructor c')) : Reached id w'

variable {w w' : World} {id : Nat} {r : Registry Value}

/-- What happens elsewhere leaves a registry with its constructors. -/
theorem HoldsConstructors.elsewhere (h : w.HoldsConstructors id r)
    (hsize : w.objects.size ≤ w'.objects.size) (hkept : w'.objects[id]? = w.objects[id]?)
    (hconstructors : ∀ (k : Nat) (c : Constructor Value), w.objects[k]? = some (.constructor c) →
      ∃ c' : Constructor Value, w'.objects[k]? = some (.constructor c')) :
    w'.HoldsConstructors id r where
  registry := hkept.trans h.registry
  plain := h.plain
  constructors e he := by
    obtain ⟨k, c, hk, hc⟩ := h.constructors e he
    obtain ⟨c', hc'⟩ := hconstructors k c hc
    exact ⟨k, c', hk, hc'⟩
  distinct := h.distinct
  void_there := h.void_there.mono hsize
  void_apart := h.void_apart

/-- A new constructor differs from all that a registry holds. -/
theorem HoldsConstructors.insert (h : w.HoldsConstructors id r) (name isVoid : Value) :
    ((w.add (.constructor ⟨name, isVoid⟩)).replace id
      (.registry (r.insert name (.ref w.objects.size)))).HoldsConstructors id
        (r.insert name (.ref w.objects.size)) := by
  have hid := lt_size h.registry
  have hnew : ∀ e ∈ r.constructors, e.2 ≠ .ref w.objects.size := by
    intro e he heq
    obtain ⟨k, c, hk, hc⟩ := h.constructors e he
    have hlt := lt_size hc
    rw [hk, Value.ref.injEq] at heq
    omega
  have hkept : ∀ {k : Nat} {c : Constructor Value}, w.objects[k]? = some (.constructor c) →
      ((w.add (.constructor ⟨name, isVoid⟩)).replace id
        (.registry (r.insert name (.ref w.objects.size)))).objects[k]? =
          some (.constructor c) := by
    intro k c hc
    have hne : k ≠ id := by
      rintro rfl
      cases h.registry.symm.trans hc
    rw [get_replace_ne hne, get_add hc]
  constructor
  · exact get_replace_self (by rw [size_add]; omega)
  · exact h.plain
  · intro e he
    rcases List.mem_append.mp he with he | he
    · obtain ⟨k, c, hk, hc⟩ := h.constructors e he
      exact ⟨k, c, hk, hkept hc⟩
    · obtain rfl := List.mem_singleton.mp he
      refine ⟨_, ⟨name, isVoid⟩, rfl, ?_⟩
      rw [get_replace_ne (Nat.ne_of_gt hid), get_add_new]
  · rw [Registry.insert, List.map_append, List.map_singleton]
    refine h.distinct.append (List.nodup_singleton _) ?_
    simpa [List.disjoint_singleton] using fun name hmem => hnew (name, _) hmem rfl
  · refine h.void_there.mono ?_
    rw [size_replace, size_add]
    exact Nat.le_succ _
  · intro e he
    rcases List.mem_append.mp he with he | he
    · exact h.void_apart e he
    · obtain rfl := List.mem_singleton.mp he
      intro heq
      have hlt := (h.void_there _ heq.symm).2
      omega

end World

namespace Operation

open World

variable {w w' : World} {id : Nat} {r : Registry Value}

/-! ### Registering a name -/

/-- What changes nothing in all its parts changes nothing. -/
theorem closed_unchanging : Closed fun _ x => Moves Eq x :=
  closed_moves (fun _ => rfl) fun _ _ _ => Eq.trans

/-- What a call that registers a name does: nothing, or it adds a constructor. -/
theorem cases_addElement (hid : w.objects[id]? = some (.registry r)) (name flag : Value) :
    ((addElement id name flag).runIn w).2 = w ∨
      ∃ isVoid, ((addElement id name flag).runIn w).2 =
        (w.add (.constructor ⟨name, isVoid⟩)).replace id
          (.registry (r.insert name (.ref w.objects.size))) := by
  rw [addElement, runIn_bind_ok (runIn_read name w)]
  by_cases htruthy : (w.read name).truthy = true
  · rw [if_pos htruthy]
    dsimp only
    rw [runIn_bind_ok (runIn_registry hid)]
    dsimp only
    have hsame := closed_unchanging.constructorOf? r name w
    rw [runIn_bind]
    rcases hfound : (constructorOf? r name).runIn w with ⟨found, w₁⟩
    rw [hfound] at hsame
    obtain rfl : w = w₁ := hsame
    cases found with
    | error f => exact .inl rfl
    | ok found =>
      cases found with
      | some known =>
        refine .inl (Eq.symm ?_)
        have hP := closed_unchanging
        refine hP.bind (hP.constructor known) (fun made => ?_) w
        split
        · exact hP.done _
        · refine hP.bind (hP.read _) fun _ => hP.bind (hP.read _) fun _ => ?_
          split
          · exact hP.done _
          · exact hP.bind (hP.read _) fun _ => hP.bind (hP.ofExcept _) fun _ => hP.failed _
      | none =>
        -- wherever the void flag comes from, it is found before anything is made
        have hmade : ∀ x : Operation Value, Moves Eq x →
            ((x >>= fun isVoid => do
              let made ← make (.constructor ⟨name, isVoid⟩)
              put id (.registry (r.insert name made))
              return made).runIn w).2 = w ∨
            ∃ isVoid, ((x >>= fun isVoid => do
              let made ← make (.constructor ⟨name, isVoid⟩)
              put id (.registry (r.insert name made))
              return made).runIn w).2 =
                (w.add (.constructor ⟨name, isVoid⟩)).replace id
                  (.registry (r.insert name (.ref w.objects.size))) := by
          intro x hx
          have hsame := hx w
          rw [runIn_bind]
          rcases hflag : x.runIn w with ⟨isVoid, w₁⟩
          rw [hflag] at hsame
          obtain rfl : w = w₁ := hsame
          cases isVoid with
          | error f => exact .inl rfl
          | ok isVoid => exact .inr ⟨isVoid, rfl⟩
        by_cases hflag : flag = .none
        · simpa only [if_pos hflag] using hmade _ (closed_unchanging.voidByDefault r name)
        · simpa only [if_neg hflag] using hmade _ (closed_unchanging.done flag)
  · rw [if_neg htruthy]
    exact .inl rfl

end Operation

namespace World

/-- A registry that holds constructors holds constructors afterwards, perhaps more of them. -/
def KeepsConstructors (id : Nat) (w w' : World) : Prop :=
  (∃ r, w.HoldsConstructors id r) → ∃ r, w'.HoldsConstructors id r

variable {w w' : World} {id : Nat}

theorem KeepsConstructors.trans (w w₁ w' : World) (h : KeepsConstructors id w w₁)
    (h' : KeepsConstructors id w₁ w') : KeepsConstructors id w w' :=
  fun hw => h' (h hw)

/-- One call that registers a name leaves a registry with its constructors. -/
theorem keepsConstructors_addElement (id : Nat) (name flag : Value) :
    Moves (KeepsConstructors id) (addElement id name flag) := by
  rintro w ⟨r, h⟩
  rcases cases_addElement h.registry name flag with hsame | ⟨isVoid, hadded⟩
  · exact ⟨r, by rwa [hsame]⟩
  · exact ⟨_, hadded ▸ h.insert name isVoid⟩

/-- A registry that was just made holds the constructors of its tags. -/
theorem holdsConstructors_of_makeRegistry {tags voidTags v : Value} (hvoid : w.Has voidTags)
    (hrun : (makeRegistry tags voidTags).runIn w = (.ok v, w')) :
    ∃ id r, v = .ref id ∧ w'.HoldsConstructors id r := by
  rw [makeRegistry, runIn_bind_ok (runIn_allocate _ w)] at hrun
  have hempty : (w.add (.registry ⟨voidTags, [], []⟩)).HoldsConstructors w.objects.size
      ⟨voidTags, [], []⟩ :=
    ⟨get_add_new, rfl, by simp, by simp, hvoid.mono (by simp), by simp⟩
  have hkeeps : Closed fun _ x => Moves (KeepsConstructors w.objects.size) x :=
    closed_moves (fun _ => id) KeepsConstructors.trans
  have hloop : Moves (KeepsConstructors w.objects.size)
      (answersOf (fun tag => discard (addElement w.objects.size tag .none)) tags) :=
    hkeeps.answersOf (fun tag =>
      hkeeps.discard (keepsConstructors_addElement w.objects.size tag .none)) tags
  have hheld := hloop (w.add (.registry ⟨voidTags, [], []⟩)) ⟨_, hempty⟩
  obtain ⟨_, w₁, hitems, hrun⟩ := ok_of_runIn_bind hrun
  obtain ⟨_, w₂, hanswers, hpure⟩ := ok_of_runIn_bind hitems
  cases hpure
  cases hrun
  rw [World.add, hanswers] at hheld
  obtain ⟨r, hr⟩ := hheld
  exact ⟨_, r, rfl, hr⟩

/-- A registry of texts holds constructors, each of the name that it is registered under. -/
theorem HasRegistry.exists_holdsConstructors {voids : List String} {rows : Entries String Row}
    (h : w.HasRegistry id voids rows) : ∃ r, w.HoldsConstructors id r := by
  obtain ⟨v, hid, hv⟩ := h.registry
  have hmem : ∀ e ∈ (ofRows v rows).constructors, ∃ row ∈ rows, e.2 = .ref row.2.made := by
    intro e he
    obtain ⟨row, hrow, rfl⟩ := List.mem_map.mp he
    exact ⟨row, hrow, rfl⟩
  refine ⟨ofRows v rows, hid, rfl, fun e he => ?_, ?_, ?_, fun e he => ?_⟩
  · obtain ⟨row, hrow, heq⟩ := hmem e he
    exact ⟨_, _, heq, h.constructors row hrow⟩
  · -- two rows with the same constructor have the name of the constructor
    have hnames : rows.Pairwise fun row row' => row.1 ≠ row'.1 := List.pairwise_map.mp h.nodup
    rw [ofRows, Entries.stored, List.map_map, List.Nodup, List.pairwise_map]
    refine hnames.imp_of_mem fun {row row'} hrow hrow' hne heq => hne ?_
    have hmade := h.constructors row hrow
    rw [Value.ref.inj heq, h.constructors row' hrow'] at hmade
    have hname : row'.1 = row.1 ∧ row'.2.isVoid = row.2.isVoid := by simpa using hmade
    exact hname.1.symm
  · exact Value.between_ref (Nat.zero_le _) (lt_size hv)
  · intro heq
    obtain ⟨row, hrow, hmade⟩ := hmem e he
    have hconstructor := h.constructors row hrow
    rw [hmade] at heq
    rw [Value.ref.inj heq, hv] at hconstructor
    cases hconstructor

/-- Wherever a registry is found, it holds constructors. -/
theorem Reached.holdsConstructors (h : w.Reached id) : ∃ r, w.HoldsConstructors id r := by
  induction h with
  | default h =>
    subst h
    exact registered_initial.holds.exists_holdsConstructors
  | made hvoid hrun =>
    obtain ⟨_, r, heq, hholds⟩ := holdsConstructors_of_makeRegistry hvoid hrun
    cases heq
    exact ⟨r, hholds⟩
  | registered _ name flag ih => exact keepsConstructors_addElement id name flag _ ih
  | elsewhere _ hsize hkept hconstructors ih =>
    obtain ⟨r, hr⟩ := ih
    exact ⟨r, hr.elsewhere hsize hkept hconstructors⟩

end World

/-! ## Items and members -/

namespace Operation

open World

variable {w w' : World} {id : Nat} {r : Registry Value} {n : String} {v : Value}

/-- The entries of a registry are found by a text in the same way when they are read. -/
theorem get?_read {f : Value → Term} (w : World) (m : List (Value × Value)) (k : String) :
    Entries.get? (m.map (Prod.map (w.unfold true w.objects.size) f)) (.text k) =
      (Entries.get? m (.text k)).map f := by
  induction m with
  | nil => rfl
  | cons e m ih =>
    have hkey : (w.unfold true w.objects.size e.1 == .text k) = (e.1 == .text k) := by
      rw [Bool.eq_iff_iff, Term.exact_text, beq_iff_eq]
      constructor
      · intro heq
        simpa using congrArg Term.toValue heq
      · intro heq
        rw [heq, unfold_atom]
    rw [List.map_cons, Entries.get?_cons, Entries.get?_cons, ih, Prod.map_fst, hkey]
    split <;> rfl

/-- The item of a name is the value that is registered under it. -/
theorem get?_of_itemOf (hid : w.objects[id]? = some (.registry r))
    (hitem : (itemOf (.ref id) (.text n)).runIn w = (.ok v, w')) :
    Entries.get? r.constructors (.text n) = some v := by
  have hread : (w.read (.ref id)).item (.text n) =
      Term.underKey (r.constructors.map (Prod.map (w.unfold true w.objects.size) w.glance))
        (.text n) := by
    rw [read_ref hid]
    rfl
  rw [itemOf, runIn_bind_ok (runIn_read _ w), runIn_bind_ok (runIn_read _ w)] at hitem
  rw [show w.read (.text n) = .text n from unfold_atom _ _ _ _, hread, Term.underKey] at hitem
  have hkey : Term.asKey (.text n) = .ok (.text n) := rfl
  rw [hkey, ok_bind, get?_read] at hitem
  cases hfound : Entries.get? r.constructors (.text n) with
  | none =>
    rw [hfound] at hitem
    cases hitem
  | some u =>
    rw [hfound] at hitem
    have heq : (w.glance u).toValue = v := Except.ok.inj (congrArg Prod.fst hitem)
    rw [← heq, glance, toValue_unfoldWith]

/-- The member of a registry under a name that is neither hidden nor its own is an element. -/
theorem runIn_member_registry (h : w.HoldsConstructors id r) {name : String}
    (hhead : name.toList.head? ≠ some '_') (hown : name ∉ ownMembers)
    (hfound : Entries.get? r.constructors (.text (Vocabulary.keyOfKeyword name)) = some v) :
    (member (.ref id) name).runIn w = (.ok v, w) := by
  have hfind := runIn_find_registry h.registry h.plain hhead hown
  rw [Registry.element, if_neg hhead, hfound] at hfind
  rw [member, runIn_bind_ok hfind]
  rfl

/-- A member of a registry that is one of its constructors is an element. -/
theorem get?_of_member (h : w.HoldsConstructors id r) {name : String} {e : Value × Value}
    (he : e ∈ r.constructors) (hrun : (member (.ref id) name).runIn w = (.ok e.2, w')) :
    name.toList.head? ≠ some '_' ∧ name ∉ ownMembers ∧
      Entries.get? r.constructors (.text (Vocabulary.keyOfKeyword name)) = some e.2 := by
  obtain ⟨k, c, hk, hc⟩ := h.constructors e he
  have hlt := lt_size hc
  rw [member] at hrun
  obtain ⟨found, w₁, hfind, hvalue⟩ := ok_of_runIn_bind hrun
  rcases cases_find_registry h.registry h.plain hfind with
    ⟨rfl, rfl⟩ | hother | ⟨hhead, hown, rfl, u, helement, rfl⟩
  · -- a skill is made for the look-up
    rw [foundValue, runIn_make', hk, Prod.mk.injEq, Except.ok.injEq, Value.ref.injEq] at hvalue
    omega
  · exfalso
    rcases hother with rfl | rfl | rfl
    · exact h.void_apart e he (Except.ok.inj (congrArg Prod.fst hvalue)).symm
    · rw [hk] at hvalue
      cases hvalue
    · rw [hk] at hvalue
      cases hvalue
      omega
  · obtain rfl : u = e.2 := Except.ok.inj (congrArg Prod.fst hvalue)
    refine ⟨hhead, hown, ?_⟩
    rw [Registry.element, if_neg hhead] at helement
    split at helement
    · next hget => rw [hget, Except.ok.inj helement]
    · cases helement

/-- A constructor is registered under one name only. -/
theorem eq_of_get? (h : w.HoldsConstructors id r) {k k' : Value}
    (hk : Entries.get? r.constructors k = some v) (hk' : Entries.get? r.constructors k' = some v) :
    k = k' := by
  have hpair := List.inj_on_of_nodup_map h.distinct (Entries.mem_of_get? hk)
    (Entries.mem_of_get? hk') rfl
  exact congrArg Prod.fst hpair

end Operation

/-! ## The main result -/

/-- Names that are read back have different spellings. -/
theorem Registry.Resolvable.eq_of_memberName {n n' : String} (h : Resolvable n)
    (h' : Resolvable n') (heq : memberName n = memberName n') : n = n' := by
  rw [← ((memberName_resolves_iff n).mpr h).2.2, heq, ((memberName_resolves_iff n').mpr h').2.2]

/-- A name is resolvable exactly if it is of this form and its name as a member is not taken. -/
theorem Registry.resolvable_iff (n : String) : Resolvable n ↔
    '_' ∉ n.toList ∧ n.toList.head? ≠ some '-' ∧ n.toList.getLast? ≠ some '-' ∧
      memberName n ∉ ownMembers := by
  rw [memberName_mem_ownMembers]
  exact ⟨fun h => ⟨h.plain, h.start, h.stop, h.free⟩,
    fun ⟨hplain, hstart, hstop, hfree⟩ => ⟨hplain, hstart, hstop, hfree⟩⟩

open World in
/--
Which names lead to an element as members.  In every state of a registry, the member under the
spelling of a registered name is the very constructor that is the item of the name exactly if the
name is resolvable: it has no underscore, neither starts nor ends with a hyphen, and its spelling is
no member of the registry itself.  No two resolvable names have the same spelling.
-/
theorem member_is_item_iff {w : World} {id : Nat} (h : w.Reached id) :
    (∀ (n : String) (v : Value) (w' : World),
      (itemOf (.ref id) (.text n)).runIn w = (.ok v, w') →
        (((member (.ref id) (memberName n)).runIn w).1 = .ok v ↔ Resolvable n)) ∧
    (∀ n : String, Resolvable n ↔ '_' ∉ n.toList ∧ n.toList.head? ≠ some '-' ∧
      n.toList.getLast? ≠ some '-' ∧ memberName n ∉ ownMembers) ∧
    ∀ n n' : String, Resolvable n → Resolvable n' → memberName n = memberName n' → n = n' := by
  obtain ⟨r, hr⟩ := h.holdsConstructors
  refine ⟨fun n v w' hitem => ?_, resolvable_iff, fun n n' hn hn' => hn.eq_of_memberName hn'⟩
  have hfound := get?_of_itemOf hr.registry hitem
  rw [← memberName_resolves_iff]
  constructor
  · intro hmember
    obtain ⟨hhead, hown, hread⟩ :=
      get?_of_member hr (Entries.mem_of_get? hfound) (runIn_of_fst hmember)
    have heq := eq_of_get? hr hread hfound
    exact ⟨hhead, hown, by simpa using heq⟩
  · rintro ⟨hhead, hown, hkey⟩
    rw [runIn_member_registry hr hhead hown (by rw [hkey]; exact hfound)]

/-- The name of a reserved word is found with an underscore, and a name with one is not found. -/
theorem member_is_item_reserved :
    ((member (.ref 0) (memberName "del")).runIn .initial).1 =
        ((itemOf (.ref 0) (.text "del")).runIn .initial).1 ∧
      ∀ w, w = ((addElement 0 (.text "a_b") .none).runIn .initial).2 →
        ((member (.ref 0) (memberName "a_b")).runIn w).1 ≠
          ((itemOf (.ref 0) (.text "a_b")).runIn w).1 := by
  have hdel : ((itemOf (.ref 0) (.text "del")).runIn .initial).1 = .ok (.ref 34) := by
    decide +kernel
  refine ⟨?_, fun w hw => ?_⟩
  · rw [hdel]
    obtain ⟨hitem, hform, -⟩ := member_is_item_iff (.default rfl : World.initial.Reached 0)
    exact (hitem "del" _ _ (runIn_of_fst hdel)).mpr ((hform "del").mpr (by decide +kernel))
  · have hitem : ((itemOf (.ref 0) (.text "a_b")).runIn w).1 = .ok (.ref 144) := by
      rw [hw]
      decide +kernel
    have hreached : w.Reached 0 := hw ▸ .registered (.default rfl) _ _
    rw [hitem]
    intro hmember
    have hplain := (((member_is_item_iff hreached).1 "a_b" _ _ (runIn_of_fst hitem)).mp
      hmember).plain
    exact hplain (by decide)

end Markup
