import Markup.Proofs.Construction.Call
import Markup.Proofs.Registry.Mentions
import Markup.Proofs.Store.Unfolding
import Markup.Rendering

/-!
# Nodes of any name

A registry makes a node of any name, and gives the constructor of any name.  The void flag of a
name is the same in both ways and stays the same when the name is registered without a flag
(`Registry.flagOf_enter`), so that it does not matter whether a node is made by the one or by the
other, nor whether names were registered before (`create_makesSame_addElement`).  Only a node whose
arguments show the registry itself is told how many names there are (`create_shows_registry`).
-/

namespace Markup

open Registry Operation

/-! ## The flag of a name -/

namespace Registry

variable {voids : List String} {rows : Entries String Row}

/-- The void flag of a name: of its row, or by default. -/
def flagOf (voids : List String) (rows : Entries String Row) (name : String) : Bool :=
  ((rows.get? name).map (·.isVoid)).getD (voids.contains name)

/-- A name that is registered without a flag gets the flag that it has. -/
theorem flagOf_enter (free : Nat) (registered name : String) :
    flagOf voids (enter voids free rows registered none) name = flagOf voids rows name := by
  rw [enter]
  split
  · rfl
  · next hnew =>
    rw [flagOf, flagOf, Entries.get?_append]
    cases hrow : rows.get? name with
    | some row => rfl
    | none =>
      rw [Option.none_or, Entries.get?_cons]
      by_cases hname : registered = name
      · rw [if_pos (by simpa using hname), hname]
        rfl
      · rw [if_neg (by simpa using hname)]
        rfl

end Registry

/-! ## The arguments of a call -/

namespace Call

variable {α : Type}

/-- The call with one more argument before the others. -/
def after (first : α) (c : Call α) : Call α := ⟨first :: c.args, c.kw⟩

/-- All values that a call gives. -/
def given (c : Call α) : List α := c.args ++ c.kw.map (·.2)

theorem first_after {name : String} {c : Call α} (h : ∀ e ∈ c.kw, e.1 ≠ name) (v : α) :
    (c.after v).first name = .ok (v, c) := by
  rw [first, after, take_of_not_mem h]
  rfl

theorem snd_mem_of_take {parameter : String} {kw : List (String × α)} {v : α}
    (h : (take parameter kw).1 = some v) : v ∈ kw.map (·.2) := by
  obtain ⟨e, he, rfl⟩ := Option.map_eq_some_iff.mp h
  exact List.mem_map_of_mem (List.mem_of_find?_eq_some he)

theorem mem_of_parameter {argument keyword : Option α} {v : α}
    (h : parameter argument keyword = .ok (some v)) : argument = some v ∨ keyword = some v := by
  cases argument with
  | none => exact .inr (Except.ok.inj h)
  | some a =>
    cases keyword with
    | none => exact .inl (Except.ok.inj h)
    | some k => cases h

end Call

/-- What holds of a missing value and of all that a call gives holds of the arguments. -/
theorem Arguments.forall_of_ofCall {taken : List String} {c : Call Value} {a : Arguments}
    {p : Value → Prop} (h : ofCall taken c = .ok a) (hnone : p .none)
    (hgiven : ∀ v ∈ c.given, p v) :
    p a.one ∧ p a.two ∧ p a.three ∧ ∀ e ∈ a.kw, p e.2 := by
  have hkw := fun e he => (mem_of_ofCall h e he).1
  obtain ⟨⟨one, two, three, kw⟩, hbind, h⟩ := ok_of_bind h
  cases h
  obtain ⟨-, hone, htwo, hthree, -⟩ := Call.of_bind hbind
  have hfound : ∀ {i : Nat} {name : String} {kw : List (String × Value)} {found : Option Value},
      Call.parameter c.args[i]? (Call.take name kw).1 = .ok found → (∀ e ∈ kw, e ∈ c.kw) →
      p (found.getD .none) := by
    intro i name kw found hparameter hsubset
    cases found with
    | none => exact hnone
    | some v =>
      refine hgiven v (List.mem_append.mpr ?_)
      rcases Call.mem_of_parameter hparameter with harg | hkeyword
      · exact .inl (List.mem_of_getElem? harg)
      · obtain ⟨e, he, rfl⟩ := List.mem_map.mp (Call.snd_mem_of_take hkeyword)
        exact .inr (List.mem_map_of_mem (hsubset e he))
  refine ⟨hfound hone fun e he => he, hfound htwo fun e he => (List.mem_filter.mp he).1,
    hfound hthree fun e he => (List.mem_filter.mp (List.mem_filter.mp he).1).1, fun e he => ?_⟩
  exact hgiven e.2 (List.mem_append_right _ (List.mem_map_of_mem (hkw e he)))

/-! ## The same node in two worlds -/

/--
Two runs make the same node, each of objects that were not there before, from the same description
and in the same order; or they end with the same fault.
-/
inductive MakesSame (w w' : World) :
    Except Fault Value × World → Except Fault Value × World → Prop
  | fault (f : Fault) (w₁ w₁' : World) : MakesSame w w' (.error f, w₁) (.error f, w₁')
  | node (s : AttributeSet) (name flag : Value) (content : String) (children : List Term) :
      MakesSame w w'
        (.ok (.ref (s.listenersAt w.objects.size + 3)),
          w.addAll (s.made w.objects.size name flag content children))
        (.ok (.ref (s.listenersAt w'.objects.size + 3)),
          w'.addAll (s.made w'.objects.size name flag content children))

variable {w w' : World} {id k : Nat} {voids : List String} {rows : Entries String Row}
  {name : String} {opened : Nat → Prop}

namespace Operation

/-- A node with a text for its name and a void flag is made unless the name is empty. -/
theorem runIn_makeNodeWith_text (hname : name ≠ "") (flag : Bool) (s : AttributeSet)
    (content : String) (children : List Term) (w : World) :
    (makeNodeWith (.text name) (.bool flag) s content children).runIn w =
      (.ok (.ref (s.listenersAt w.objects.size + 3)),
        w.addAll (s.made w.objects.size (.text name) (.bool flag) content children)) := by
  have hsize : (w.addAll (s.cells w.objects.size children)).objects.size =
      s.listenersAt w.objects.size + 3 := by
    rw [World.size_addAll, AttributeSet.add_length_cells]
  rw [runIn_makeNodeWith, makeNode, runIn_bind_ok (runIn_read _ _),
    if_pos (truthy_read_text _ hname)]
  show (voidOr (some (.bool flag)) (.text name) >>= _).runIn _ = _
  rw [AttributeSet.made, World.addAll_append, ← World.add_eq_addAll, ← hsize]
  rfl

theorem runIn_makeNodeWith_empty (flag : Value) (s : AttributeSet) (content : String)
    (children : List Term) (w : World) :
    ((makeNodeWith (.text "") flag s content children).runIn w).1 = .error .emptyNodeName := by
  rw [runIn_makeNodeWith]
  rfl

/-- A call makes what it describes. -/
theorem runIn_construct_describe (a : Arguments) (name flag : Value) (w : World) :
    (a.construct name flag).runIn w =
      (ofExcept (describe (w.read a.one) (w.read a.two) (w.read a.three)
          (a.kw.map fun e => (e.1, w.readPart e.2))) >>= fun described =>
        makeNodeWith name flag described.1 described.2.1 described.2.2).runIn w := by
  rw [Arguments.construct, construct, runIn_bind_ok (runIn_world w)]

/-- A call describes the same node as long as its arguments are read in the same way. -/
theorem makesSame_construct {a : Arguments} (hsame : w'.read a.one = w.read a.one ∧
    w'.read a.two = w.read a.two ∧ w'.read a.three = w.read a.three ∧
    ∀ e ∈ a.kw, w'.readPart e.2 = w.readPart e.2) (name : String) (flag : Bool) :
    MakesSame w w' ((a.construct (.text name) (.bool flag)).runIn w)
      ((a.construct (.text name) (.bool flag)).runIn w') := by
  obtain ⟨hone, htwo, hthree, hkw⟩ := hsame
  have hkeywords : (a.kw.map fun e => (e.1, w'.readPart e.2)) =
      a.kw.map fun e => (e.1, w.readPart e.2) :=
    List.map_congr_left fun e he => by rw [hkw e he]
  rw [runIn_construct_describe, runIn_construct_describe, hone, htwo, hthree, hkeywords]
  generalize describe (w.read a.one) (w.read a.two) (w.read a.three)
    (a.kw.map fun e => (e.1, w.readPart e.2)) = described
  cases described with
  | error f => exact .fault f w w'
  | ok described =>
    obtain ⟨s, content, children⟩ := described
    rw [runIn_bind_ok (runIn_ofExcept _ w), runIn_bind_ok (runIn_ofExcept _ w')]
    by_cases hname : name = ""
    · rw [hname, runIn_of_fst (runIn_makeNodeWith_empty _ s content children w),
        runIn_of_fst (runIn_makeNodeWith_empty _ s content children w')]
      exact .fault ..
    · rw [runIn_makeNodeWith_text hname, runIn_makeNodeWith_text hname]
      exact .node ..

/-- Makes the node of a name and a void flag that a call describes. -/
def constructNamed (name : String) (flag : Bool) (c : Call Value) : Operation Value := do
  (← ofExcept (Arguments.ofCall ["self"] c)).construct (.text name) (.bool flag)

/-- A call makes the same node while nothing that its arguments reach is changed. -/
theorem makesSame_constructNamed (hchanges : w.ChangesOnly opened w') {c : Call Value}
    (hgiven : ∀ v ∈ c.given, w.Avoids opened v) (name : String) (flag : Bool) :
    MakesSame w w' ((constructNamed name flag c).runIn w)
      ((constructNamed name flag c).runIn w') := by
  rw [constructNamed]
  cases ha : Arguments.ofCall ["self"] c with
  | error f => exact .fault f w w'
  | ok a =>
    rw [runIn_bind_ok (runIn_ofExcept _ w), runIn_bind_ok (runIn_ofExcept _ w')]
    obtain ⟨hone, htwo, hthree, hkw⟩ :=
      Arguments.forall_of_ofCall ha (.atom w opened .none) hgiven
    exact makesSame_construct ⟨hone.read_eq hchanges, htwo.read_eq hchanges,
      hthree.read_eq hchanges, fun e he => (hkw e he).readPart_eq hchanges⟩ name flag

/-! ## The two ways to make a node -/

/-- The void flag that a registry answers with. -/
theorem runIn_isVoid (h : w.HasRegistry id voids rows) {v : Nat}
    (hid : w.objects[id]? = some (.registry (ofRows v rows))) (name : String) :
    (isVoid (ofRows v rows) (.text name)).runIn w = (.ok (.bool (flagOf voids rows name)), w) := by
  obtain ⟨v', hid', hv⟩ := h.registry
  obtain rfl : v = v' := by simpa [ofRows] using hid.symm.trans hid'
  rw [isVoid, runIn_bind_ok (runIn_constructorOf? w v rows name), flagOf]
  cases hrow : rows.get? name with
  | none => exact runIn_voidByDefault hv rows name
  | some row =>
    show (constructor (.ref row.made) >>= _).runIn w = _
    rw [runIn_bind_ok (runIn_constructor (h.constructors _ (Entries.mem_of_get? hrow)))]
    rfl

theorem runIn_perform_isVoid (h : w.HasRegistry id voids rows) (name : String) :
    (perform id "is_void" ⟨[.text name], []⟩).runIn w =
      (.ok (.bool (flagOf voids rows name)), w) := by
  obtain ⟨v, hid, -⟩ := h.registry
  rw [perform, runIn_bind_ok (runIn_registry hid)]
  show (withOne "name" ⟨[.text name], []⟩ (isVoid (ofRows v rows))).runIn w = _
  rw [runIn_withOne, runIn_isVoid h hid]

theorem runIn_perform_addElement (h : w.HasRegistry id voids rows) (name : String) :
    (perform id "add_element" ⟨[.text name], []⟩).runIn w =
      (addElement id (.text name) (flagValue none)).runIn w := by
  obtain ⟨v, hid, -⟩ := h.registry
  rw [perform, runIn_bind_ok (runIn_registry hid)]
  rfl

/-- A registry makes a node of a name with the flag of the name. -/
theorem runIn_perform_create (h : w.HasRegistry id voids rows) (name : String) {c : Call Value}
    (hkw : ∀ e ∈ c.kw, e.1 ≠ "name") :
    (perform id "create" (c.after (.text name))).runIn w =
      (constructNamed name (flagOf voids rows name) c).runIn w := by
  obtain ⟨v, hid, -⟩ := h.registry
  have hflag : (voidFlag id (.text name)).runIn w = (.ok (.bool (flagOf voids rows name)), w) := by
    rw [voidFlag, runIn_bind_ok (runIn_registry hid)]
    show (request (.ref id) "is_void" ⟨[.text name], []⟩ _).runIn w = _
    rw [runIn_request hid rfl rfl, runIn_isVoid h hid]
  rw [perform, runIn_bind_ok (runIn_registry hid)]
  show (create id (c.after (.text name))).runIn w = _
  rw [create, Call.first_after hkw, runIn_bind_ok (runIn_ofExcept _ w), constructNamed]
  dsimp only
  cases ha : Arguments.ofCall ["self"] c with
  | error f => rfl
  | ok a =>
    rw [runIn_bind_ok (runIn_ofExcept _ w), runIn_bind_ok (runIn_ofExcept _ w),
      runIn_bind_ok hflag]

/-- A constructor makes a node of its own name with its own flag. -/
theorem runIn_callValue_constructor {flag : Bool}
    (h : w.objects[k]? = some (.constructor ⟨.text name, .bool flag⟩)) (c : Call Value) :
    (callValue (.ref k) c).runIn w = (constructNamed name flag c).runIn w := by
  rw [callValue, runIn_bind_ok (runIn_get h)]
  rfl

end Operation

namespace World

/-- Registering a name without a flag gives a constructor with the flag that the name has. -/
theorem HasRegistry.exists_constructor (h : w.HasRegistry id voids rows) (hname : name ≠ "") :
    ∃ k w', (addElement id (.text name) (flagValue none)).runIn w = (.ok (.ref k), w') ∧
      w'.objects[k]? = some (.constructor ⟨.text name, .bool (flagOf voids rows name)⟩) ∧
      w.ChangesOnly (· = id) w' ∧ (rows.has name = true → w' = w) := by
  cases hrow : rows.get? name with
  | some row =>
    have hmade := h.constructors _ (Entries.mem_of_get? hrow)
    refine ⟨row.made, w, ?_, ?_, .refl _ w, fun _ => rfl⟩
    · rw [runIn_addElement_held h hname hrow, if_pos (.inl rfl)]
    · rw [hmade, flagOf, hrow]
      rfl
  | none =>
    obtain ⟨v, hid, hv⟩ := h.registry
    have hrun := runIn_addElement_new hid hv hname hrow none
    obtain ⟨-, hchanges⟩ := h.of_addElement name none hrun
    refine ⟨_, _, hrun, ?_, hchanges, fun hheld => ?_⟩
    · rw [get_replace_ne (Nat.ne_of_gt (lt_size hid)), get_add_new, flagOf, hrow]
      rfl
    · exact absurd (Entries.has_iff_mem.mp hheld) (Entries.not_mem_of_get? hrow)

/-- However many names are registered without a flag, all names keep the flag that they have. -/
theorem HasRegistry.afterCalls_unflagged (h : w.HasRegistry id voids rows) (names : List String) :
    ∃ rows', (w.afterCalls id (names.map (·, none))).HasRegistry id voids rows' ∧
      (∀ name, flagOf voids rows' name = flagOf voids rows name) ∧
      w.ChangesOnly (· = id) (w.afterCalls id (names.map (·, none))) := by
  induction names generalizing w rows with
  | nil => exact ⟨rows, h, fun _ => rfl, .refl _ w⟩
  | cons registered names ih =>
    obtain ⟨hholds, hchanges⟩ := h.of_addElement registered none rfl
    obtain ⟨rows', hrest, hflags, hlater⟩ := ih hholds
    refine ⟨rows', hrest, fun name => ?_, hchanges.trans hlater⟩
    rw [hflags, flagOf_enter]

end World

/-! ## The main result -/

/--
A registry makes the same node of a name as the constructor that it gives for the name: by the very
same run if the name is registered, and otherwise from all arguments that neither contain themselves
nor show the registry.  Whatever names are registered without a flag, the void flag of each name
stays the same, and so do the nodes made of it from such arguments.
-/
theorem create_makesSame_addElement (h : w.HasRegistry id voids rows) :
    (∀ name ≠ "", ∃ k w', (perform id "add_element" ⟨[.text name], []⟩).runIn w = (.ok k, w') ∧
      ∀ c : Call Value, (∀ e ∈ c.kw, e.1 ≠ "name") →
        (rows.has name = true → w' = w ∧ (perform id "create" (c.after (.text name))).runIn w =
          (callValue k c).runIn w') ∧
        ((∀ v ∈ c.given, w.Avoids (· = id) v) →
          MakesSame w w' ((perform id "create" (c.after (.text name))).runIn w)
            ((callValue k c).runIn w'))) ∧
    (∀ (names : List String) (w' : World), w' = w.afterCalls id (names.map (·, none)) →
      ∀ name, (∃ flag, (perform id "is_void" ⟨[.text name], []⟩).runIn w = (.ok (.bool flag), w) ∧
          (perform id "is_void" ⟨[.text name], []⟩).runIn w' = (.ok (.bool flag), w')) ∧
        ∀ c : Call Value, (∀ e ∈ c.kw, e.1 ≠ "name") → (∀ v ∈ c.given, w.Avoids (· = id) v) →
          MakesSame w w' ((perform id "create" (c.after (.text name))).runIn w)
            ((perform id "create" (c.after (.text name))).runIn w')) := by
  constructor
  · intro name hname
    obtain ⟨k, w', hrun, hk, hchanges, hheld⟩ := h.exists_constructor hname
    refine ⟨.ref k, w', (runIn_perform_addElement h name).trans hrun, fun c hkw => ?_⟩
    rw [runIn_perform_create h name hkw, runIn_callValue_constructor hk]
    exact ⟨fun hrow => ⟨hheld hrow, by rw [hheld hrow]⟩,
      fun hgiven => makesSame_constructNamed hchanges hgiven name _⟩
  · rintro names w' rfl name
    obtain ⟨rows', hholds, hflags, hchanges⟩ := h.afterCalls_unflagged names
    refine ⟨⟨flagOf voids rows name, runIn_perform_isVoid h name, ?_⟩, fun c hkw hgiven => ?_⟩
    · rw [runIn_perform_isVoid hholds, hflags]
    · rw [runIn_perform_create h name hkw, runIn_perform_create hholds name hkw, hflags]
      exact makesSame_constructNamed hchanges hgiven name _

/-! ### A registry with one name, which is void against the default -/

/-- A registry that knows `p` as a void tag, and a map that can be given for attributes. -/
def World.withVoidParagraph : World := .ofObjects #[.frozenSet [.text "br"],
  .registry (ofRows 0 [("p", ⟨2, true⟩)]), .constructor ⟨.text "p", .bool true⟩,
  .map [(.text "title", .text "t")]]

/-- A name that is new and void by default, and then the name that is known. -/
theorem create_makesSame_addElement_br :
    (∃ k w', (perform 1 "add_element" ⟨[.text "br"], []⟩).runIn .withVoidParagraph =
        (.ok k, w') ∧ MakesSame .withVoidParagraph w'
      ((perform 1 "create" ⟨[.text "br", .ref 3], []⟩).runIn .withVoidParagraph)
      ((callValue k ⟨[.ref 3], []⟩).runIn w')) ∧
    (perform 1 "is_void" ⟨[.text "p"], []⟩).runIn
        (World.withVoidParagraph.afterCalls 1 [("br", none), ("p", none)]) =
      (.ok (.bool true), World.withVoidParagraph.afterCalls 1 [("br", none), ("p", none)]) := by
  have hholds : World.withVoidParagraph.HasRegistry 1 ["br"] [("p", ⟨2, true⟩)] :=
    ⟨⟨0, rfl, rfl⟩, by simp [World.withVoidParagraph, World.ofObjects], by decide⟩
  have hmap : World.withVoidParagraph.objects[3]? = some (.map [(.text "title", .text "t")]) := rfl
  have hgiven : World.withVoidParagraph.Avoids (· = 1) (.ref 3) := by
    refine ⟨.ref hmap (by simpa [Object.shown] using ⟨.atom _, .atom _⟩), fun i hi => ?_⟩
    cases hi with
    | here => exact ⟨by decide, by decide⟩
    | through object part rest =>
      rw [hmap, Option.some.injEq] at object
      subst object
      simp only [Object.shown, Object.kept, List.flatMap_cons, List.flatMap_nil, List.append_nil,
        List.mem_cons, List.not_mem_nil, or_false] at part
      rcases part with rfl | rfl <;> cases rest
  obtain ⟨hmade, hlater⟩ := create_makesSame_addElement hholds
  obtain ⟨k, w', hrun, hcalls⟩ := hmade "br" (by decide)
  have hsame := (hcalls ⟨[.ref 3], []⟩ (by simp)).2 (by simpa [Call.given] using hgiven)
  obtain ⟨⟨flag, hbefore, hafter⟩, -⟩ := hlater ["br", "p"] _ rfl "p"
  have hflag : (perform 1 "is_void" ⟨[.text "p"], []⟩).runIn .withVoidParagraph =
      (.ok (.bool true), .withVoidParagraph) := runIn_perform_isVoid hholds "p"
  rw [hflag, Prod.mk.injEq, Except.ok.injEq, Value.atom.injEq, Atom.bool.injEq] at hbefore
  rw [← hbefore.1] at hafter
  exact ⟨⟨k, w', hrun, hsame⟩, hafter⟩

/-! ### An argument that shows the registry -/

/-- A registry with one name, and a map that can be given for attributes and holds the registry. -/
def World.withRegistryGiven : World := .ofObjects #[.frozenSet [],
  .registry (ofRows 0 [("div", ⟨2, false⟩)]), .constructor ⟨.text "div", .bool false⟩,
  .map [(.text "data", .ref 1)]]

/-- A registry shows how many names it has, and so do the nodes that are made of it. -/
theorem create_shows_registry : World.withRegistryGiven.HasRegistry 1 [] [("div", ⟨2, false⟩)] ∧
    ((perform 1 "create" ⟨[.text "x-new", .ref 3], []⟩ >>= render).runIn .withRegistryGiven).1 =
      .ok "<x-new data=\"ElementRegistry(&lt;1 tags&gt;)\"></x-new>" ∧
    ∃ w', (perform 1 "add_element" ⟨[.text "x-new"], []⟩).runIn .withRegistryGiven =
        (.ok (.ref 4), w') ∧
      ((callValue (.ref 4) ⟨[.ref 3], []⟩ >>= render).runIn w').1 =
        .ok "<x-new data=\"ElementRegistry(&lt;2 tags&gt;)\"></x-new>" ∧
      ((perform 1 "create" ⟨[.text "x-new", .ref 3], []⟩ >>= render).runIn w').1 =
        .ok "<x-new data=\"ElementRegistry(&lt;2 tags&gt;)\"></x-new>" := by
  refine ⟨⟨⟨0, rfl, rfl⟩, by simp [World.withRegistryGiven, World.ofObjects], by decide⟩,
    by decide +kernel, _, runIn_of_fst (by decide +kernel), by decide +kernel, by decide +kernel⟩

end Markup
