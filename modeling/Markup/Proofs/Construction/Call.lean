import Markup.Catalogue
import Markup.Proofs.Construction.Objects
import Markup.Proofs.Tree.InWorld

/-!
# Calls that make a node

A node can be asked for by name, of the library or of a registry, and a constructor can be called.
All three match their arguments and keywords with the parameters of a constructor and make the node
that these describe (`ConstructorCall.exists_construct`); what they look up before changes nothing.
-/

namespace Markup

open Operation

/-! ## Matching arguments -/

namespace Call

variable {α : Type}

theorem take_of_not_mem {parameter : String} {kw : List (String × α)}
    (h : ∀ e ∈ kw, e.1 ≠ parameter) : take parameter kw = (none, kw) := by
  have hfind : kw.find? (·.1 = parameter) = none := by
    rw [List.find?_eq_none]
    intro e he
    simpa using h e he
  have hfilter : kw.filter (·.1 ≠ parameter) = kw := by
    rw [List.filter_eq_self]
    intro e he
    simpa using h e he
  rw [take, hfind, hfilter]
  rfl

/-- What is left after a parameter was filled does not name it. -/
theorem mem_of_first {parameter : String} {c rest : Call α} {v : α}
    (h : c.first parameter = .ok (v, rest)) : ∀ e ∈ rest.kw, e ∈ c.kw ∧ e.1 ≠ parameter := by
  rw [first] at h
  obtain ⟨found, hfound, h⟩ := ok_of_bind h
  cases found with
  | none => cases h
  | some u =>
    cases h
    intro e he
    simpa [take] using he

/-- What it takes to match a call with the parameters of a constructor. -/
theorem of_bind {taken : List String} {c : Call α} {one two three : Option α}
    {kw : List (String × α)} (h : c.bind taken = .ok (one, two, three, kw)) :
    c.args.length ≤ 3 ∧ parameter c.args[0]? (take "one" c.kw).1 = .ok one ∧
      parameter c.args[1]? (take "two" (take "one" c.kw).2).1 = .ok two ∧
      parameter c.args[2]? (take "three" (take "two" (take "one" c.kw).2).2).1 = .ok three ∧
      kw = (take "three" (take "two" (take "one" c.kw).2).2).2 := by
  rw [bind] at h
  by_cases hlength : c.args.length > 3
  · rw [if_pos hlength] at h
    cases h
  · rw [if_neg hlength] at h
    by_cases htaken : c.kw.any (taken.contains ·.1) = true
    · rw [if_pos htaken] at h
      cases h
    · rw [if_neg htaken] at h
      obtain ⟨one', hone, h⟩ := ok_of_bind h
      obtain ⟨two', htwo, h⟩ := ok_of_bind h
      obtain ⟨three', hthree, h⟩ := ok_of_bind h
      cases h
      exact ⟨by omega, hone, htwo, hthree, rfl⟩

end Call

namespace Arguments

variable {taken : List String} {c : Call Value} {a : Arguments}

/-- The keywords that are left are none of the parameters. -/
theorem mem_of_ofCall (h : ofCall taken c = .ok a) :
    ∀ e ∈ a.kw, e ∈ c.kw ∧ e.1 ≠ "one" ∧ e.1 ≠ "two" ∧ e.1 ≠ "three" := by
  obtain ⟨⟨one, two, three, kw⟩, hbind, h⟩ := ok_of_bind h
  cases h
  obtain ⟨-, -, -, -, rfl⟩ := Call.of_bind hbind
  intro e he
  have hleft : ¬ e.1 = "three" ∧ ¬ e.1 = "two" ∧ e ∈ c.kw ∧ ¬ e.1 = "one" := by
    simpa [Call.take, and_assoc, and_left_comm] using he
  exact ⟨hleft.2.2.1, hleft.2.2.2, hleft.2.1, hleft.1⟩

/-- Arguments that were matched are matched with themselves. -/
theorem eq_of_ofCall_again (h : ofCall taken c = .ok a) {taken' : List String} {a' : Arguments}
    (h' : ofCall taken' ⟨[a.one, a.two, a.three], a.kw⟩ = .ok a') : a' = a := by
  have hkw := mem_of_ofCall h
  obtain ⟨⟨one, two, three, kw⟩, hbind, h'⟩ := ok_of_bind h'
  cases h'
  obtain ⟨-, hone, htwo, hthree, hrest⟩ := Call.of_bind hbind
  rw [Call.take_of_not_mem fun e he => (hkw e he).2.1] at hone htwo hthree hrest
  rw [Call.take_of_not_mem fun e he => (hkw e he).2.2.1] at htwo hthree hrest
  rw [Call.take_of_not_mem fun e he => (hkw e he).2.2.2] at hthree hrest
  cases hone
  cases htwo
  cases hthree
  rw [hrest]
  rfl

end Arguments

/-! ## The calls -/

/-- The operations that make a node of arguments: each is a call with these arguments. -/
inductive ConstructorCall : Operation Value → Arguments → Prop
  /-- A name is asked of the library. -/
  | createElement {c rest : Call Value} {name : Value} {a : Arguments}
      (hname : c.first "name" = .ok (name, rest)) (ha : Arguments.ofCall [] rest = .ok a) :
      ConstructorCall (createElement c) a
  /-- A name is asked of a registry. -/
  | create {c rest : Call Value} {name : Value} {a : Arguments} (registry : Nat)
      (hname : c.first "name" = .ok (name, rest)) (ha : Arguments.ofCall ["self"] rest = .ok a) :
      ConstructorCall (create registry c) a
  /-- A constructor is called. -/
  | object {c : Call Value} {a : Arguments} (callee : Value)
      (ha : Arguments.ofCall ["self"] c = .ok a) : ConstructorCall (callValue callee c) a

namespace Operation

variable {w w' : World}

/-- Where no member is made for it, looking a name up leaves the world as it is. -/
theorem runIn_find_snd (v : Value) {name : String} (hname : name ∉ "args" :: madeMembers)
    (w : World) : ((find v name).runIn w).2 = w := by
  rw [madeMembers] at hname
  cases v with
  | atom a => rfl
  | ref id =>
    cases ho : w.objects[id]? with
    | none =>
      have hget : (get? id).runIn w = (.ok none, w) := by rw [runIn_get?, ho]
      rw [find, runIn_bind_ok hget]
      rfl
    | some o =>
      have hmade : madeMember id o name = pure none := by
        rw [madeMember.eq_def]
        split
        · exact absurd (by simp) hname
        · exact absurd (by simp) hname
        · exact absurd (by simp) hname
        · rfl
      rw [runIn_find ho hmade]

section Closure

variable {P : ∀ ⦃α : Type⦄, Operation α → Prop} (hP : Closed P)

include hP

protected theorem Closed.registry (v : Value) : P (registry v) := by
  refine hP.bind (hP.objectOf v) fun found => ?_
  split
  · exact hP.done _
  · exact hP.failed _

protected theorem Closed.constructor (v : Value) : P (constructor v) := by
  refine hP.bind (hP.objectOf v) fun found => ?_
  split
  · exact hP.done _
  · exact hP.failed _

protected theorem Closed.constructorOf? (r : Registry Value) (name : Value) :
    P (constructorOf? r name) :=
  hP.bind (hP.readKey name) fun _ => hP.bind hP.looked fun _ => hP.done _

protected theorem Closed.voidByDefault (r : Registry Value) (name : Value) :
    P (voidByDefault r name) :=
  hP.bind (hP.read _) fun _ => hP.bind (hP.read _) fun _ => hP.bind (hP.ofExcept _) fun _ =>
    hP.done _

protected theorem Closed.isVoid (r : Registry Value) (name : Value) : P (isVoid r name) := by
  refine hP.bind (hP.constructorOf? r name) fun found => ?_
  split
  · exact hP.bind (hP.constructor _) fun _ => hP.done _
  · exact hP.voidByDefault r name

end Closure

/-- A void flag is found without a change. -/
theorem extending_voidFlag (id : Nat) (name : Value) : Extending (voidFlag id name) :=
  closed_extending.bind (closed_extending.registry _) fun r =>
    extending_request _ (by simp [madeMembers]) _ (closed_extending.isVoid r.2 name)

/-- What a class makes is an error. -/
theorem exists_error_of_makeError {e : ErrorClass} {c : Call Value} {v : Value}
    (h : (makeError e c).runIn w = (.ok v, w')) :
    ∃ args, v = .ref w.objects.size ∧ w' = w.add (.error e args []) := by
  have hmade : ∀ {args : List Value}, (make (.error e args [])).runIn w = (.ok v, w') →
      ∃ args, v = .ref w.objects.size ∧ w' = w.add (.error e args []) := by
    intro args h
    rw [runIn_make', Prod.mk.injEq, Except.ok.injEq] at h
    exact ⟨args, h.1.symm, h.2.symm⟩
  rw [makeError.eq_def] at h
  split at h
  · split at h
    · split at h
      · exact hmade h
      · cases h
    · cases h
  · split at h
    · exact hmade h
    · cases h

/-- What is called and makes a node is a constructor. -/
theorem exists_construct_of_callValue {callee : Value} {c : Call Value} {i : Nat} {n : Node Value}
    (hrun : (callValue callee c).runIn w = (.ok (.ref i), w'))
    (hn : w'.objects[i]? = some (.node n)) :
    ∃ (a : Arguments) (made : Constructor Value), Arguments.ofCall ["self"] c = .ok a ∧
      (a.construct made.name made.isVoid).runIn w = (.ok (.ref i), w') := by
  rw [callValue.eq_def] at hrun
  split at hrun
  · obtain ⟨args, hi, rfl⟩ := exists_error_of_makeError hrun
    rw [Value.ref.inj hi, World.get_add_new] at hn
    cases hn
  · cases hrun
  · obtain ⟨found, w₁, hfound, hrun⟩ := ok_of_runIn_bind hrun
    cases hfound
    split at hrun
    · next made _ =>
      obtain ⟨a, w₁, ha, hrun⟩ := ok_of_runIn_bind hrun
      rw [runIn_ofExcept, Prod.mk.injEq] at ha
      obtain ⟨ha, rfl⟩ := ha
      exact ⟨a, made, ha, hrun⟩
    · cases eq_none_of_callListener hrun
    · cases hrun

/-- A registry makes a node of the arguments after the name, with the void flag that it answers. -/
theorem exists_construct_of_create {registry : Nat} {c : Call Value} {v : Value}
    (hrun : (create registry c).runIn w = (.ok v, w')) :
    ∃ name rest a, c.first "name" = .ok (name, rest) ∧
      Arguments.ofCall ["self"] rest = .ok a ∧ ∃ w₀ flag, w.Extends w₀ ∧
        (voidFlag registry name).runIn w = (.ok flag, w₀) ∧
        (a.construct name flag).runIn w₀ = (.ok v, w') := by
  obtain ⟨⟨name, rest⟩, w₁, hname, hrun⟩ := ok_of_runIn_bind hrun
  rw [runIn_ofExcept, Prod.mk.injEq] at hname
  obtain ⟨hname, rfl⟩ := hname
  obtain ⟨a, w₁, ha, hrun⟩ := ok_of_runIn_bind hrun
  rw [runIn_ofExcept, Prod.mk.injEq] at ha
  obtain ⟨ha, rfl⟩ := ha
  have hflag := extending_voidFlag registry name w
  obtain ⟨flag, w₀, hvoid, hrun⟩ := ok_of_runIn_bind hrun
  rw [hvoid] at hflag
  exact ⟨name, rest, a, hname, ha, w₀, flag, hflag, hvoid, hrun⟩

/-- The default registry makes the node of a name that is asked of the library. -/
theorem exists_construct_of_createElement {c rest : Call Value} {name : Value} {a : Arguments}
    {i : Nat} {n : Node Value} (hname : c.first "name" = .ok (name, rest))
    (ha : Arguments.ofCall [] rest = .ok a)
    (hrun : (createElement c).runIn w = (.ok (.ref i), w'))
    (hn : w'.objects[i]? = some (.node n)) :
    ∃ w₀ flag, w.Extends w₀ ∧
      (voidFlag World.defaultRegistry name).runIn w = (.ok flag, w₀) ∧
      (a.construct name flag).runIn w₀ = (.ok (.ref i), w') := by
  rw [Operation.createElement, hname] at hrun
  obtain ⟨_, w₁, hfirst, hrun⟩ := ok_of_runIn_bind hrun
  cases hfirst
  dsimp only at hrun
  rw [ha] at hrun
  obtain ⟨_, w₁, hmatch, hrun⟩ := ok_of_runIn_bind hrun
  cases hmatch
  obtain ⟨found, w₂, hfound, hrun⟩ := ok_of_runIn_bind hrun
  obtain rfl : w₂ = w := by
    have hsame : ((find (.ref World.defaultRegistry) "create").runIn w).2 = w :=
      runIn_find_snd _ (by simp [madeMembers]) w
    rwa [hfound] at hsame
  cases found with
  | part callee =>
    -- a constructor would be called with four arguments
    obtain ⟨a', made, ha', -⟩ := exists_construct_of_callValue hrun hn
    obtain ⟨_, hbind, -⟩ := ok_of_bind ha'
    have hlength := (Call.of_bind hbind).1
    simp at hlength
  | skill =>
    obtain ⟨name', rest', a', hname', ha', w₀, flag, hext, hflag, hrun⟩ :=
      exists_construct_of_create hrun
    have hkw := fun e he => (Call.mem_of_first hname e (Arguments.mem_of_ofCall ha e he).1).2
    have hpassed : Call.first "name" ⟨[name, a.one, a.two, a.three], a.kw⟩ =
        .ok (name, ⟨[a.one, a.two, a.three], a.kw⟩) := by
      rw [Call.first, Call.take_of_not_mem hkw]
      rfl
    rw [hpassed, Except.ok.injEq, Prod.mk.injEq] at hname'
    obtain ⟨rfl, rfl⟩ := hname'
    rw [Arguments.eq_of_ofCall_again ha ha'] at hrun
    exact ⟨w₀, flag, hext, hflag, hrun⟩

end Operation

/-- A call that makes a node makes it of its arguments, with a void flag found before. -/
theorem ConstructorCall.exists_construct {x : Operation Value} {a : Arguments} {w w' : World}
    {i : Nat} {n : Node Value} (h : ConstructorCall x a)
    (hrun : x.runIn w = (.ok (.ref i), w')) (hn : w'.objects[i]? = some (.node n)) :
    ∃ w₀ name flag, w.Extends w₀ ∧ (a.construct name flag).runIn w₀ = (.ok (.ref i), w') := by
  cases h with
  | object callee ha =>
    obtain ⟨a', made, ha', hrun⟩ := exists_construct_of_callValue hrun hn
    rw [ha, Except.ok.injEq] at ha'
    exact ⟨w, made.name, made.isVoid, World.Extends.refl w, ha' ▸ hrun⟩
  | create registry hname ha =>
    obtain ⟨name', rest', a', hname', ha', w₀, flag, hext, -, hrun⟩ :=
      exists_construct_of_create hrun
    rw [hname, Except.ok.injEq, Prod.mk.injEq] at hname'
    obtain ⟨rfl, rfl⟩ := hname'
    rw [ha, Except.ok.injEq] at ha'
    exact ⟨w₀, _, flag, hext, ha' ▸ hrun⟩
  | createElement hname ha =>
    obtain ⟨w₀, flag, hext, -, hrun⟩ := exists_construct_of_createElement hname ha hrun hn
    exact ⟨w₀, _, flag, hext, hrun⟩

/-! ## The children -/

/-- The attributes and the children among the roles of three arguments. -/
theorem Roles.of_resolve {one two three : Term} {roles : Roles}
    (h : resolve one two three = .ok roles) :
    roles.attributes = ((secondAttributes? two).or (firstAttributes? one)).getD (.entries []) ∧
      match (children? three).or ((children? two).or (children? one)) with
      | some t => laxChildren t = .ok roles.children
      | none => roles.children = [] := by
  rw [resolve] at h
  obtain ⟨content, h⟩ : ∃ content, (do
      let children ← match (children? three).or ((children? two).or (children? one)) with
        | some t => laxChildren t
        | none => pure []
      return (⟨((secondAttributes? two).or (firstAttributes? one)).getD (.entries []), content,
        children⟩ : Roles)) = .ok roles := by
    cases hcontent : content? two with
    | none =>
      rw [hcontent] at h
      exact ⟨"", h⟩
    | some t =>
      rw [hcontent] at h
      obtain ⟨content, -, h⟩ := ok_of_bind h
      exact ⟨content, h⟩
  cases hchildren : (children? three).or ((children? two).or (children? one)) with
  | none =>
    rw [hchildren] at h
    cases h
    exact ⟨rfl, rfl⟩
  | some t =>
    rw [hchildren] at h
    obtain ⟨children, hlax, h⟩ := ok_of_bind h
    cases h
    exact ⟨rfl, hlax⟩

namespace World

/-- The items of a value that can give children. -/
def sequence? (w : World) : Value → Option (List Value)
  | .atom (.range p) => some (p.toList.map .int)
  | .atom _ => none
  | .ref id =>
    match w.objects[id]? with
    | some (.list items) | some (.tuple items) => some items
    | _ => none

/-- The items that a call gives for children: of its last argument that is a sequence. -/
def childrenGiven (w : World) (a : Arguments) : List Value :=
  ((w.sequence? a.three).or ((w.sequence? a.two).or (w.sequence? a.one))).getD []

variable {w w' : World}

/-- Items are the items of a term, each unfolded; or there are no items and no term. -/
def UnfoldsTo (w : World) (given : Option (List Value)) (taken : Option Term) : Prop :=
  (given = none ∧ taken = none) ∨ ∃ items t ts, given = some items ∧ taken = some t ∧
    t.items = .ok ts ∧ List.Forall₂ (fun u t => ∃ depth, t = w.unfold true (depth + 1) u) items ts

theorem UnfoldsTo.or {given given' : Option (List Value)} {taken taken' : Option Term}
    (h : w.UnfoldsTo given taken) (h' : w.UnfoldsTo given' taken') :
    w.UnfoldsTo (given.or given') (taken.or taken') := by
  rcases h with ⟨rfl, rfl⟩ | ⟨items, t, ts, rfl, rfl, hitems⟩
  · exact h'
  · exact .inr ⟨items, t, ts, rfl, rfl, hitems⟩

/-- What a value unfolds to gives children if the value does. -/
theorem unfoldsTo_children? (w : World) (v : Value) :
    w.UnfoldsTo (w.sequence? v) (Roles.children? (w.read v)) := by
  cases v with
  | atom a =>
    cases a with
    | range p =>
      refine .inr ⟨_, .atom (.range p), _, rfl, rfl, rfl, ?_⟩
      rw [List.forall₂_map_left_iff, List.forall₂_map_right_iff, List.forall₂_same]
      exact fun i _ => ⟨0, rfl⟩
    | _ => exact .inl ⟨rfl, rfl⟩
  | ref id =>
    have hitems : ∀ items : List Value, id < w.objects.size →
        List.Forall₂ (fun u t => ∃ depth, t = w.unfold true (depth + 1) u) items
          (items.map (w.unfold true w.objects.size)) := by
      intro items hid
      obtain ⟨size, hsize⟩ := Nat.exists_eq_add_of_lt hid
      rw [List.forall₂_map_right_iff, List.forall₂_same, hsize]
      exact fun u _ => ⟨_, rfl⟩
    cases ho : w.objects[id]? with
    | none =>
      refine .inl ⟨by rw [sequence?, ho], ?_⟩
      rw [read, depthBound, unfold, unfoldWith, ho]
      rfl
    | some o =>
      rw [read_ref ho]
      cases o with
      | list items =>
        exact .inr ⟨items, _, _, by rw [sequence?, ho], rfl, rfl, hitems items (lt_size ho)⟩
      | tuple items =>
        exact .inr ⟨items, _, _, by rw [sequence?, ho], rfl, rfl, hitems items (lt_size ho)⟩
      | _ => exact .inl ⟨by rw [sequence?, ho], rfl⟩

/-- A value that is a text, a number or a truth value. -/
def IsPrimitive (w : World) : Value → Prop
  | .atom a => (Term.atom a).shape = .primitive
  | .ref id => w.objects[id]? = some .notANumber

theorem Extends.isPrimitive {v : Value} (h : w.Extends w') (hv : w.IsPrimitive v) :
    w'.IsPrimitive v := by
  cases v with
  | atom a => exact hv
  | ref id => exact h.kept hv

/-- What becomes of an item as a child: a node stays what it is, and a primitive is a text. -/
def BecomesChild (w : World) (given child : Value) : Prop :=
  (∀ k n, given = .ref k → w.objects[k]? = some (.node n) → child = given) ∧
    (w.IsPrimitive given → ∃ s, child = .text s)

/-- A node among the items of an argument becomes a child as it is. -/
theorem laxChild_node {depth k : Nat} {n : Node Value} {t : Term}
    (hn : w.objects[k]? = some (.node n))
    (h : Roles.laxChild (w.unfold true (depth + 1) (.ref k)) = .ok t) : t.toValue = .ref k := by
  rw [unfold, unfoldWith, hn] at h
  cases h
  rfl

/-- A primitive among the items of an argument becomes a text. -/
theorem laxChild_primitive {depth : Nat} {v : Value} {t : Term} (hv : w.IsPrimitive v)
    (h : Roles.laxChild (w.unfold true (depth + 1) v) = .ok t) : ∃ s, t = .text s := by
  have hnumber : ∀ {u : Term}, (do return Term.text (← Roles.primitiveText u)) = .ok t →
      ∃ s, t = .text s := by
    intro u h
    obtain ⟨s, -, h⟩ := ok_of_bind h
    cases h
    exact ⟨s, rfl⟩
  cases v with
  | ref id =>
    rw [unfold_ref hv] at h
    exact hnumber h
  | atom a =>
    rw [unfold_atom] at h
    cases a with
    | text s =>
      cases h
      exact ⟨s, rfl⟩
    | bool b => exact hnumber h
    | int i => exact hnumber h
    | float x => exact hnumber h
    | none => cases hv
    | bytes bs => cases hv
    | range p => cases hv
    | errorClass c => cases hv

/-- A child is the item that it was made of, or a text. -/
theorem eq_or_text_of_laxChild {t child : Term} (h : Roles.laxChild t = .ok child) :
    child = t ∨ ∃ s, child = .text s := by
  rw [Roles.laxChild.eq_def] at h
  split at h
  case h_5 => exact .inl (Except.ok.inj h).symm
  all_goals
    obtain ⟨s, -, h⟩ := ok_of_bind h
    cases h
    exact .inr ⟨s, rfl⟩

/-- What holds of each item and of the child that it becomes holds of the items and the children. -/
theorem forall₂_laxChild {p : Value → Value → Prop} {items : List Value} {ts children : List Term}
    (hp : ∀ depth u t, Roles.laxChild (w.unfold true (depth + 1) u) = .ok t → p u t.toValue)
    (hunfold : List.Forall₂ (fun u t => ∃ depth, t = w.unfold true (depth + 1) u) items ts)
    (hlax : List.Forall₂ (fun t child => Roles.laxChild t = .ok child) ts children) :
    List.Forall₂ p items (values children) := by
  induction hunfold generalizing children with
  | nil =>
    cases hlax
    exact .nil
  | cons hu _ ih =>
    cases hlax with
    | cons hchild hrest =>
      obtain ⟨depth, rfl⟩ := hu
      exact .cons (hp _ _ _ hchild) (ih hrest)

/-- What holds of the items that a call gives and of the children that it describes. -/
theorem forall₂_of_describe {p : Value → Value → Prop} {a : Arguments} {kw : List (String × Term)}
    {s : AttributeSet} {content : String} {children : List Term}
    (hp : ∀ depth u t, Roles.laxChild (w.unfold true (depth + 1) u) = .ok t → p u t.toValue)
    (h : describe (w.read a.one) (w.read a.two) (w.read a.three) kw = .ok (s, content, children)) :
    List.Forall₂ p (w.childrenGiven a) (values children) := by
  obtain ⟨roles, -, hroles, -, rfl, -⟩ := of_describe h
  have hchildren := (Roles.of_resolve hroles).2
  have hgiven := (w.unfoldsTo_children? a.three).or
    ((w.unfoldsTo_children? a.two).or (w.unfoldsTo_children? a.one))
  rcases hgiven with ⟨hgiven, htaken⟩ | ⟨items, t, ts, hgiven, htaken, hitems, hunfold⟩
  · rw [htaken] at hchildren
    rw [childrenGiven, hgiven, hchildren]
    exact .nil
  · rw [htaken] at hchildren
    rw [childrenGiven, hgiven]
    dsimp only at hchildren
    rw [Roles.laxChildren, hitems] at hchildren
    exact forall₂_laxChild hp hunfold (forall₂_of_mapM_eq_ok hchildren)

/-- The children that a call describes are what the items that it gives become. -/
theorem becomesChild_of_describe {a : Arguments} {kw : List (String × Term)} {s : AttributeSet}
    {content : String} {children : List Term}
    (h : describe (w.read a.one) (w.read a.two) (w.read a.three) kw = .ok (s, content, children)) :
    List.Forall₂ w.BecomesChild (w.childrenGiven a) (values children) := by
  refine forall₂_of_describe (fun depth u t ht => ⟨fun k n hk hn => ?_, fun hu => ?_⟩) h
  · subst hk
    exact laxChild_node hn ht
  · obtain ⟨s, rfl⟩ := laxChild_primitive hu ht
    exact ⟨s, rfl⟩

/-- The nodes among the items that a call gives are children as they are. -/
theorem children_of_describe {a : Arguments} {kw : List (String × Term)} {s : AttributeSet}
    {content : String} {children : List Term}
    (h : describe (w.read a.one) (w.read a.two) (w.read a.three) kw = .ok (s, content, children)) :
    List.Forall₂ (fun given child => ∀ k n, given = .ref k → w.objects[k]? = some (.node n) →
      child = given) (w.childrenGiven a) (values children) :=
  (becomesChild_of_describe h).imp fun _ _ hchild => hchild.1

/-- What an argument gives for children stays the same while objects are made. -/
theorem Extends.sequence?_eq {v : Value} (h : w.Extends w') (hv : v.Between 0 w.objects.size) :
    w'.sequence? v = w.sequence? v := by
  cases v with
  | atom a => cases a <;> rfl
  | ref id =>
    obtain ⟨o, ho⟩ := exists_of_lt_size (hv id rfl).2
    rw [sequence?, sequence?, ho, h.kept ho]

end World

end Markup
