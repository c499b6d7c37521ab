import Markup.Construction
import Markup.Proofs.Attributes
import Markup.Proofs.Tree.InWorld

/-!
# What constructors make

A call of a constructor that succeeds makes a node whose plain attributes are those that the call
describes (`exists_describe_of_construct`).  `Head.Constructed` says of what a node holds that a
constructor made it, in whatever world and of whatever arguments, and that nothing but listeners
was added since; no plain attribute of such a node is called `id`, `class` or `style`
(`Constructed.not_mem_keys`).
-/

namespace Markup

/-! ## What a call describes -/

/-- A call describes what its arguments describe, with what its keywords describe put over it. -/
theorem of_describe {one two three : Term} {kw : List (String × Term)}
    {s : AttributeSet} {content : String} {children : List Term}
    (h : describe one two three kw = .ok (s, content, children)) :
    ∃ roles base, Roles.resolve one two three = .ok roles ∧
      AttributeSet.ofSource roles.attributes = .ok base ∧ roles.children = children ∧
      (kw = [] ∧ s = base ∨
        ∃ later, AttributeSet.ofKeywords kw = .ok later ∧ s = base.merge later) := by
  obtain ⟨roles, hroles, h⟩ := ok_of_bind h
  obtain ⟨base, hbase, h⟩ := ok_of_bind h
  refine ⟨roles, base, hroles, hbase, ?_⟩
  by_cases hkw : kw.isEmpty = true
  · simp only [hkw, if_true, pure_eq_ok, ok_bind] at h
    cases h
    exact ⟨rfl, .inl ⟨List.isEmpty_iff.mp hkw, rfl⟩⟩
  · simp only [hkw, pure_eq_ok] at h
    obtain ⟨later, hlater, h⟩ := ok_of_bind h
    cases h
    exact ⟨rfl, .inr ⟨later, hlater, rfl⟩⟩

theorem separates_of_describe {one two three : Term} {kw : List (String × Term)}
    {s : AttributeSet} {content : String} {children : List Term}
    (h : describe one two three kw = .ok (s, content, children)) : s.Separates := by
  obtain ⟨roles, base, -, hbase, -, hs⟩ := of_describe h
  have hseparates := AttributeSet.separates_ofSource hbase
  rcases hs with ⟨-, rfl⟩ | ⟨later, hlater, rfl⟩
  · exact hseparates
  · exact hseparates.merge (AttributeSet.separates_ofEntries hlater)

/-! ## What is made of it -/

namespace Operation

open World

variable {w w' : World} {v : Value}

/-- Finding a void flag changes nothing. -/
theorem eq_of_runIn_voidOr {given : Option Value} {name : Value}
    (h : (voidOr given name).runIn w = (.ok v, w')) : w' = w := by
  have hdefault : (defaultVoid name).runIn w = (.ok v, w') → w' = w := by
    intro h
    obtain ⟨key, w₁, hkey, h⟩ := ok_of_runIn_bind h
    have hworld : w₁ = w := congrArg Prod.snd hkey.symm
    rw [hworld] at h
    split at h <;> exact congrArg Prod.snd h.symm
  rw [voidOr.eq_def] at h
  split at h
  · exact hdefault h
  · exact hdefault h
  · exact congrArg Prod.snd h.symm

/-- A node that is made is the next object, with the collections that were given. -/
theorem runIn_makeNode_ok {name isVoid id style content : Value} {classes listeners attrs : Nat}
    {children : Nat}
    (h : (makeNode name {
      isVoid := some isVoid
      id := some id
      classes := some (.ref classes)
      style := some style
      listeners := some (.ref listeners)
      attrs := some (.ref attrs)
      content := some content
      children := some (.ref children) }).runIn w = (.ok v, w')) :
    ∃ flag, v = .ref w.objects.size ∧ w' = w.add (.node ⟨name, flag, id, .ref classes, style,
      .ref listeners, .ref attrs, content, .ref children⟩) := by
  rw [makeNode] at h
  obtain ⟨t, w₁, ht, h⟩ := ok_of_runIn_bind h
  cases ht
  by_cases htrue : (w.read name).truthy = true
  · simp only [htrue, if_true] at h
    obtain ⟨flag, w₁, hflag, h⟩ := ok_of_runIn_bind h
    rw [eq_of_runIn_voidOr hflag] at h
    cases h
    exact ⟨flag, rfl, rfl⟩
  · simp only [htrue] at h
    cases h

/-- The listeners are a new map. -/
theorem exists_ref_of_runIn_makeListeners {listeners : Entries String (List Term)}
    (h : (makeListeners listeners).runIn w = (.ok v, w')) : ∃ id, v = .ref id := by
  obtain ⟨rows, w₁, -, h⟩ := ok_of_runIn_bind h
  cases h
  exact ⟨_, rfl⟩

/-- The node that is made has the plain attributes that it was made with. -/
theorem runIn_makeNodeWith_ok {name isVoid : Value} {s : AttributeSet} {content : String}
    {children : List Term}
    (h : (makeNodeWith name isVoid s content children).runIn w = (.ok v, w')) :
    ∃ id n, v = .ref id ∧ w'.objects[id]? = some (.node n) ∧
      w'.HasMap n.attrs (s.attrs.map fun e => (e.1.toValue, .atom e.2.toAtom)) := by
  obtain ⟨classes, w₁, hclasses, h⟩ := ok_of_runIn_bind h
  cases hclasses
  obtain ⟨style, w₂, -, h⟩ := ok_of_runIn_bind h
  obtain ⟨listeners, w₃, hlisteners, h⟩ := ok_of_runIn_bind h
  obtain ⟨listenerMap, rfl⟩ := exists_ref_of_runIn_makeListeners hlisteners
  obtain ⟨attrs, w₄, hattrs, h⟩ := ok_of_runIn_bind h
  cases hattrs
  obtain ⟨list, w₅, hlist, h⟩ := ok_of_runIn_bind h
  cases hlist
  obtain ⟨flag, rfl, rfl⟩ := runIn_makeNode_ok h
  exact ⟨_, _, rfl, get_add_new, _, rfl, get_add (get_add get_add_new)⟩

end Operation

/-- What a constructor makes has the plain attributes that the call describes. -/
theorem exists_separates_of_construct {name isVoid one two three v : Value}
    {kw : List (String × Value)} {w w' : World}
    (h : (construct name isVoid one two three kw).runIn w = (.ok v, w')) :
    ∃ s : AttributeSet, s.Separates ∧ ∃ id n, v = .ref id ∧ w'.objects[id]? = some (.node n) ∧
      w'.HasMap n.attrs (s.attrs.map fun e => (e.1.toValue, .atom e.2.toAtom)) := by
  obtain ⟨w₁, w₂, hw, h⟩ := Operation.ok_of_runIn_bind h
  cases hw
  obtain ⟨⟨s, content, children⟩, w₃, hdescribe, h⟩ := Operation.ok_of_runIn_bind h
  rw [Operation.runIn_ofExcept, Prod.mk.injEq] at hdescribe
  exact ⟨s, separates_of_describe hdescribe.1, Operation.runIn_makeNodeWith_ok h⟩

/-! ## What constructors made -/

/--
What is held by a node that a constructor made, in any world and of any arguments, and that nothing
but listeners was added to since.
-/
inductive Head.Constructed : Head → Prop
  | made {name isVoid one two three v : Value} {kw : List (String × Value)} {w w' : World}
      {h : Head} {children : List Tree}
      (hrun : (construct name isVoid one two three kw).runIn w = (.ok v, w'))
      (hv : (w'.read v).Shows (.node h children)) : Constructed h
  | listening {h : Head} (hh : Constructed h) {listeners : Entries String (List Value)}
      (hlisteners : (Entries.keys listeners).Nodup) :
      Constructed { h with listeners := listeners, listeners_nodup := hlisteners }

/-- A plain attribute that a constructor made has no key with a field of its own. -/
theorem Head.Constructed.not_mem_keys {h : Head} (hh : h.Constructed) {name : String}
    (hname : name ∈ AttributeSet.ownKeys) : name ∉ Entries.keys h.attrs := by
  induction hh with
  | listening _ _ ih => exact ih
  | @made _ _ _ _ _ _ _ _ w' h children hrun hv =>
    obtain ⟨s, hs, id, n, rfl, hid, a, ha, hmap⟩ := exists_separates_of_construct hrun
    cases World.Shows.of_unfold hv with
    | @node _ m _ _ _ object fields holder below =>
      obtain rfl : m = n := by
        rw [object, Option.some.injEq, Object.node.injEq] at hid
        exact hid
      obtain ⟨b, hb, hshown⟩ := fields.attrs
      obtain rfl : a = b := Value.ref.inj (ha.symm.trans hb)
      rw [hmap, Option.some.injEq, Object.map.injEq] at hshown
      exact hs.not_mem_keys hshown hname

end Markup
