import Markup.Proofs.Construction.Callees
import Markup.Proofs.Registry.Creation

/-!
# What a call describes, whatever it gives

A call of a constructor that succeeds describes lists of listeners that have items, all of which can
be called (`World.filled_of_describe`), and children of which none is a number
(`World.child_of_describe`), whatever the keys of its mapping are.  The node that is made has a name
and a void flag, the flag that was given if one was (`Operation.exists_named_of_construct`), and
which flag that is follows from the call (`World.Calls.exists_construct`).
-/

namespace Markup

open Operation

/-! ## Lists that have items -/

namespace Entries

variable {κ β : Type} [BEq κ] {p : β → Prop} {m later : Entries κ (List β)} {k : κ} {vs : List β}

/-- No list is empty, and something holds of all items. -/
def Filled (p : β → Prop) (m : Entries κ (List β)) : Prop :=
  ∀ e ∈ m, e.2 ≠ [] ∧ ∀ v ∈ e.2, p v

theorem Filled.extend (hm : m.Filled p) (hne : vs ≠ []) (hvs : ∀ v ∈ vs, p v) :
    (m.extend k vs).Filled p := by
  induction m with
  | nil => exact List.forall_mem_singleton.mpr ⟨hne, hvs⟩
  | cons e m ih =>
    obtain ⟨⟨hfirst, hitems⟩, hrest⟩ := List.forall_mem_cons.mp hm
    rw [Entries.extend, alter]
    split
    · refine List.forall_mem_cons.mpr ⟨⟨by simp [hfirst], ?_⟩, hrest⟩
      exact List.forall_mem_append.mpr ⟨hitems, hvs⟩
    · exact List.forall_mem_cons.mpr ⟨⟨hfirst, hitems⟩, ih hrest⟩

theorem Filled.extendAll (hm : m.Filled p) (hlater : later.Filled p) :
    (m.extendAll later).Filled p := by
  induction later generalizing m with
  | nil => exact hm
  | cons e later ih =>
    obtain ⟨⟨hne, hitems⟩, hrest⟩ := List.forall_mem_cons.mp hlater
    exact ih (hm.extend hne hitems) hrest

end Entries

/-! ## The listeners -/

namespace AttributeSet

variable {p : Term → Prop} {s t : AttributeSet}

/-- What a value that registers listeners gives: one at least, and something holds of each. -/
def Gives (p : Term → Prop) (value : Term) : Prop :=
  ∀ fns, callables value = some fns → fns ≠ [] ∧ ∀ f ∈ fns, p f

theorem filled_addEntry {key value : Term} (hs : s.listeners.Filled p) (hvalue : Gives p value)
    (h : s.addEntry key value = .ok t) : t.listeners.Filled p := by
  rcases cases_addEntry h with ⟨-, -, -, ⟨-, _, rfl⟩ | ⟨-, _, rfl⟩ | ⟨-, _, -, rfl⟩⟩ |
    ⟨-, ⟨event, fns, hfns, -, rfl⟩ | ⟨_, -, rfl⟩⟩
  · exact hs
  · exact hs
  · exact hs
  · obtain ⟨begins, -, hchosen⟩ := ok_of_bind hfns
    cases begins with
    | false => cases hchosen
    | true =>
      obtain ⟨hne, hall⟩ := hvalue fns (Except.ok.inj hchosen)
      exact hs.extend hne hall
  · exact hs

theorem filled_ofEntries {es : List (Term × Term)} (hes : ∀ e ∈ es, Gives p e.2)
    (h : ofEntries es = .ok s) : s.listeners.Filled p :=
  foldlM_preserves (fun _ e he _ hs => filled_addEntry hs (hes e he))
    (show empty.listeners.Filled p from List.forall_mem_nil _) h

/-- The listeners that a call describes, where the values that it gives are such. -/
theorem filled_of_describe {one two three : Term} {kw : List (String × Term)} {content : String}
    {children : List Term} {roles : Roles} (hroles : Roles.resolve one two three = .ok roles)
    (hes : ∀ es, roles.attributes = .entries es → ∀ e ∈ es, Gives p e.2)
    (hkw : ∀ e ∈ kw, Gives p e.2) (h : describe one two three kw = .ok (s, content, children)) :
    s.listeners.Filled p := by
  obtain ⟨_, base, hroles', hbase, -, hs⟩ := of_describe h
  obtain rfl := Except.ok.inj (hroles.symm.trans hroles')
  have hfilled : base.listeners.Filled p := by
    cases hsource : roles.attributes with
    | selector text =>
      rw [hsource] at hbase
      cases hbase
      exact List.forall_mem_nil _
    | entries es =>
      rw [hsource] at hbase
      exact filled_ofEntries (hes es hsource) hbase
  rcases hs with ⟨-, rfl⟩ | ⟨later, hlater, rfl⟩
  · exact hfilled
  · refine hfilled.extendAll (filled_ofEntries (fun e he => ?_) hlater)
    obtain ⟨d, hd, rfl⟩ := List.mem_map.mp he
    obtain ⟨e', he', heq⟩ := List.mem_map.mp (Entries.value_of_mem_ofList hd)
    obtain ⟨given, hgiven, rfl⟩ := List.mem_map.mp he'
    exact heq ▸ hkw given hgiven

end AttributeSet

namespace World

variable {w : World} {a : Arguments} {s : AttributeSet} {content : String} {children : List Term}

/-- What can be called when it is unfolded can be called. -/
theorem callable_of_unfold {v : Value} {depth : Nat}
    (h : (w.unfold true depth v).callable = true) : w.callable v = true := by
  cases depth with
  | succ depth => rwa [callable_unfold fun _ _ _ => Nat.succ_pos depth] at h
  | zero =>
    cases v with
    | atom a => rwa [callable_unfold (v := .atom a) nofun] at h
    | ref id => cases h

/-- An unfolded value gives listeners that can be called. -/
theorem gives_unfold (w : World) (v : Value) (depth : Nat) :
    AttributeSet.Gives (fun f => w.callable f.toValue = true) (w.unfold true depth v) := by
  intro fns hfns
  have hitems : ∀ {k : Nat} {items : List Value} {fns : List Term},
      (if !(items.map (w.unfold true k)).isEmpty && (items.map (w.unfold true k)).all Term.callable
        then some (items.map (w.unfold true k)) else none) = some fns →
      fns ≠ [] ∧ ∀ f ∈ fns, w.callable f.toValue = true := by
    intro k items fns h
    split at h
    · next hcond =>
      cases h
      rw [Bool.and_eq_true, Bool.not_eq_true', List.isEmpty_eq_false_iff, List.all_eq_true] at hcond
      refine ⟨hcond.1, fun f hf => ?_⟩
      obtain ⟨u, -, rfl⟩ := List.mem_map.mp hf
      rw [toValue_unfold]
      exact callable_of_unfold (hcond.2 _ hf)
    · cases h
  rw [AttributeSet.callables.eq_def] at hfns
  by_cases hcallable : (w.unfold true depth v).callable = true
  · rw [if_pos hcallable] at hfns
    cases hfns
    refine ⟨List.cons_ne_nil _ _, List.forall_mem_singleton.mpr ?_⟩
    rw [toValue_unfold]
    exact callable_of_unfold hcallable
  rw [if_neg hcallable] at hfns
  cases v with
  | atom a =>
    rw [unfold_atom] at hfns
    cases hfns
  | ref id =>
    cases depth with
    | zero => cases hfns
    | succ depth =>
      rw [unfold, unfoldWith] at hfns
      cases ho : w.objects[id]? with
      | none =>
        rw [ho] at hfns
        cases hfns
      | some o =>
        rw [ho] at hfns
        cases o with
        | list items => exact hitems hfns
        | tuple items => exact hitems hfns
        | _ => cases hfns

/-- The values of a mapping are unfolded values. -/
theorem exists_unfold_of_entries {roles : Roles}
    (hroles : Roles.resolve (w.read a.one) (w.read a.two) (w.read a.three) = .ok roles) :
    ∀ es, roles.attributes = .entries es → ∀ e ∈ es, ∃ v depth, e.2 = w.unfold true depth v := by
  intro es hes e he
  cases hm : w.mappingGiven a with
  | some given =>
    rw [attributes_of_mappingGiven hroles hm] at hes
    cases hes
    obtain ⟨d, -, rfl⟩ := List.mem_map.mp he
    exact ⟨_, _, rfl⟩
  | none =>
    obtain ⟨s, hs⟩ := exists_selector_of_mappingGiven hroles hm
    rw [hs] at hes
    cases hes

/-- The listeners of a described node have been given, and can be called. -/
theorem filled_of_describe
    (h : describe (w.read a.one) (w.read a.two) (w.read a.three)
      (a.kw.map fun e => (e.1, w.readPart e.2)) = .ok (s, content, children)) :
    s.listeners.Filled fun f => w.callable f.toValue = true := by
  obtain ⟨roles, -, hroles, -⟩ := of_describe h
  refine AttributeSet.filled_of_describe hroles (fun es hes e he => ?_) (fun e he => ?_) h
  · obtain ⟨v, depth, hv⟩ := exists_unfold_of_entries hroles es hes e he
    rw [hv]
    exact gives_unfold w v depth
  · obtain ⟨d, -, rfl⟩ := List.mem_map.mp he
    exact gives_unfold w d.2 w.objects.size

/-! ## The children -/

/-- A child of a described node is a text, or it was given and is no primitive. -/
theorem child_of_describe {kw : List (String × Term)}
    (h : describe (w.read a.one) (w.read a.two) (w.read a.three) kw = .ok (s, content, children)) :
    ∀ v ∈ values children,
      (∃ text, v = .text text) ∨ v ∈ w.childrenGiven a ∧ ¬ w.IsPrimitive v := by
  have hall : List.Forall₂ (fun u v => (∃ text, v = .text text) ∨ v = u ∧ ¬ w.IsPrimitive u)
      (w.childrenGiven a) (values children) := by
    refine forall₂_of_describe (fun depth u t ht => ?_) h
    by_cases hprimitive : w.IsPrimitive u
    · obtain ⟨text, rfl⟩ := laxChild_primitive hprimitive ht
      exact .inl ⟨text, rfl⟩
    · rcases eq_or_text_of_laxChild ht with rfl | ⟨text, rfl⟩
      · exact .inr ⟨toValue_unfold .., hprimitive⟩
      · exact .inl ⟨text, rfl⟩
  intro v hv
  obtain ⟨u, hu, htext | ⟨rfl, hnot⟩⟩ := exists_mem_of_forall₂ hall hv
  · exact .inl htext
  · exact .inr ⟨hu, hnot⟩

end World

/-! ## The name and the void flag -/

/-- A name with the void flag that a registry gives for it. -/
structure Tag where
  name : String
  flag : Value

namespace World

/--
A call of a constructor, or of a registry by a name: the tag of the node that it makes, which is
what the constructor was made for or what the registry answers, and its arguments.
-/
inductive Calls (w : World) : Operation Value → Tag → Arguments → Prop
  | constructor {k : Nat} {tag : Tag} {c : Call Value} {a : Arguments}
      (callee : w.objects[k]? = some (.constructor ⟨.text tag.name, tag.flag⟩))
      (ha : Arguments.ofCall ["self"] c = .ok a) : w.Calls (callValue (.ref k) c) tag a
  | create {registry : Nat} {tag : Tag} {c rest : Call Value} {a : Arguments} {w₀ : World}
      (hname : c.first "name" = .ok (.text tag.name, rest))
      (flag : (voidFlag registry (.text tag.name)).runIn w = (.ok tag.flag, w₀))
      (ha : Arguments.ofCall ["self"] rest = .ok a) : w.Calls (create registry c) tag a
  | createElement {tag : Tag} {c rest : Call Value} {a : Arguments} {w₀ : World}
      (hname : c.first "name" = .ok (.text tag.name, rest))
      (flag : (voidFlag World.defaultRegistry (.text tag.name)).runIn w = (.ok tag.flag, w₀))
      (ha : Arguments.ofCall [] rest = .ok a) : w.Calls (createElement c) tag a

/-- What such a call makes is made of its arguments, its name and its flag. -/
theorem Calls.exists_construct {x : Operation Value} {tag : Tag} {w' : World} {i : Nat}
    {n : Node Value} (h : w.Calls x tag a) (hrun : x.runIn w = (.ok (.ref i), w'))
    (hn : w'.objects[i]? = some (.node n)) :
    ∃ w₀, w.Extends w₀ ∧
      (a.construct (.text tag.name) tag.flag).runIn w₀ = (.ok (.ref i), w') := by
  cases h with
  | constructor callee ha =>
    rw [callValue, runIn_bind_ok (runIn_get callee)] at hrun
    refine ⟨w, .refl w, ?_⟩
    obtain ⟨a', w₁, ha', hrun⟩ := ok_of_runIn_bind hrun
    rw [ha] at ha'
    cases ha'
    exact hrun
  | create hname flag ha =>
    obtain ⟨name', rest', a', hname', ha', w₀, flag', hext, hflag, hrun⟩ :=
      exists_construct_of_create hrun
    rw [hname, Except.ok.injEq, Prod.mk.injEq] at hname'
    obtain ⟨rfl, rfl⟩ := hname'
    rw [ha, Except.ok.injEq] at ha'
    rw [flag, Prod.mk.injEq, Except.ok.injEq] at hflag
    obtain ⟨rfl, rfl⟩ := hflag
    exact ⟨_, hext, ha' ▸ hrun⟩
  | createElement hname flag ha =>
    obtain ⟨w₀, flag', hext, hflag, hrun⟩ := exists_construct_of_createElement hname ha hrun hn
    rw [flag, Prod.mk.injEq, Except.ok.injEq] at hflag
    obtain ⟨rfl, rfl⟩ := hflag
    exact ⟨_, hext, hrun⟩

end World

namespace Operation

variable {w w' : World} {name : String} {flag v : Value} {a : Arguments}

/-- A void flag that is found is there, and is the one that was given if one was. -/
theorem flag_of_runIn_voidOr {found : Value}
    (h : (voidOr (some flag) (.text name)).runIn w = (.ok found, w')) :
    found ≠ .none ∧ (flag ≠ .none → found = flag) := by
  by_cases hflag : flag = .none
  · rw [hflag] at h
    cases h
    exact ⟨nofun, fun hne => absurd hflag hne⟩
  · rw [runIn_voidOr_some hflag] at h
    cases h
    exact ⟨hflag, fun _ => rfl⟩

/-- What a call makes under a name is not without a name, and has a void flag. -/
theorem exists_named_of_construct
    (h : (a.construct (.text name) flag).runIn w = (.ok v, w')) :
    ∃ s content children isVoid, name ≠ "" ∧ isVoid ≠ .none ∧ (flag ≠ .none → isVoid = flag) ∧
      describe (w.read a.one) (w.read a.two) (w.read a.three)
        (a.kw.map fun e => (e.1, w.readPart e.2)) = .ok (s, content, children) ∧
      v = .ref (s.listenersAt w.objects.size + 3) ∧
      w' = w.addAll (s.made w.objects.size (.text name) isVoid content children) := by
  obtain ⟨w₁, w₂, hw, h⟩ := ok_of_runIn_bind h
  cases hw
  obtain ⟨⟨s, content, children⟩, w₃, hdescribe, h⟩ := ok_of_runIn_bind h
  rw [runIn_ofExcept, Prod.mk.injEq] at hdescribe
  obtain ⟨hdescribe, rfl⟩ := hdescribe
  have hname : name ≠ "" := by
    rintro rfl
    have hempty := runIn_makeNodeWith_empty flag s content children w
    rw [h] at hempty
    cases hempty
  have hsize : (w.addAll (s.cells w.objects.size children)).objects.size =
      s.listenersAt w.objects.size + 3 := by
    rw [World.size_addAll, AttributeSet.add_length_cells]
  rw [runIn_makeNodeWith] at h
  rcases cases_makeNode (.text name) _ (w.addAll (s.cells w.objects.size children)) with
    ⟨fault, hrun⟩ | ⟨isVoid, hvoid, hrun⟩
  · rw [hrun] at h
    cases h
  · rw [hrun, Prod.mk.injEq, Except.ok.injEq] at h
    obtain ⟨hthere, hgiven⟩ := flag_of_runIn_voidOr hvoid
    refine ⟨s, content, children, isVoid, hname, hthere, hgiven, hdescribe, ?_, ?_⟩
    · rw [← h.1, ← hsize]
      rfl
    · rw [← h.2, AttributeSet.made, World.addAll_append, ← World.add_eq_addAll]
      rfl

/-- A call that describes a node makes it under every name that is not empty. -/
theorem runIn_construct {s : AttributeSet} {content : String} {children : List Term}
    (h : describe (w.read a.one) (w.read a.two) (w.read a.three)
      (a.kw.map fun e => (e.1, w.readPart e.2)) = .ok (s, content, children))
    (hname : name ≠ "") (flag : Bool) :
    (a.construct (.text name) (.bool flag)).runIn w =
      (.ok (.ref (s.listenersAt w.objects.size + 3)),
        w.addAll (s.made w.objects.size (.text name) (.bool flag) content children)) := by
  rw [runIn_construct_describe, h, runIn_bind_ok (runIn_ofExcept _ w)]
  exact runIn_makeNodeWith_text hname flag s content children w

end Operation

end Markup
