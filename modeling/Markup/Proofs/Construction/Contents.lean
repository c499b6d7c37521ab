import Markup.Proofs.Attributes.Rereading
import Markup.Proofs.Construction.Built
import Markup.Proofs.Construction.Described
import Markup.Proofs.Tree.Equality

/-!
# What a constructor puts into a node

`Contents` are what a node holds that a constructor made: the values and their order, but not which
objects hold them.  The classes may be any values, and so may the children, but each map has each
key once.  Nodes with the same contents are equal (`World.HasContents.eq`).

What a constructor makes has normal contents (`World.exists_contents_of_construct`): no event is
without listeners, all listeners can be called, no plain attribute has a key with a field of its
own, and no child is a number.
-/

namespace Markup

open Operation
open Vocabulary (listenerMark)

/-- What a node holds, in the order in which it holds it. -/
structure Contents where
  name : String
  isVoid : Bool
  id : Option String
  classes : List Value
  style : Option Style
  listeners : Entries String (List Value)
  attrs : Entries String AttributeValue
  content : String
  children : List Value
  style_nodup : ∀ s ∈ style, (Entries.keys s).Nodup
  listeners_nodup : (Entries.keys listeners).Nodup
  attrs_nodup : (Entries.keys attrs).Nodup

/-- What is described stands for contents: for the same values in the same order. -/
structure AttributeSet.StandsFor (s : AttributeSet) (children : List Term) (c : Contents) :
    Prop where
  id : s.id = c.id
  classes : values s.classes = c.classes
  style : s.style = c.style
  listeners : s.listeners.map (fun e => (e.1, values e.2)) = c.listeners
  attrs : s.attrs = c.attrs.stored .text fun v => v
  children : values children = c.children

namespace World

/-- A node has these contents. -/
structure HasContents (w : World) (n : Node Value) (c : Contents) : Prop where
  name : n.name = .text c.name
  isVoid : n.isVoid = .bool c.isVoid
  id : n.id = textOrNone c.id
  classes : w.HasList n.classes c.classes
  style : w.HasStyle n.style c.style
  listeners : w.HasListeners n.listeners c.listeners
  attrs : w.HasMap n.attrs (c.attrs.map fun e => (.text e.1, .atom e.2.toAtom))
  content : n.content = .text c.content
  children : w.HasList n.children c.children

variable {w w' : World} {n n' : Node Value} {c : Contents} {i j : Nat}

theorem HasContents.keep (h : w.HasContents n c) (hkeep : w.Retains 0 w') : w'.HasContents n c where
  name := h.name
  isVoid := h.isVoid
  id := h.id
  classes := h.classes.keep hkeep.keeps
  style := h.style.keep hkeep.keeps
  listeners := h.listeners.keep hkeep.keeps
  attrs := h.attrs.keep hkeep.keeps
  content := h.content
  children := h.children.keep hkeep.keeps

/-- Lists of the same items are equal, even if an item does not equal itself. -/
theorem HasList.eq {v v' : Value} {vs : List Value} (h : w.HasList v vs) (h' : w.HasList v' vs)
    (depth : Nat) : (w.unfold true (depth + 1) v).eq (w.unfold true (depth + 1) v') = true := by
  obtain ⟨_, hv⟩ := h.unfold_items depth
  obtain ⟨_, hv'⟩ := h'.unfold_items depth
  rw [hv, hv', Term.eq]
  exact Term.allSame_of_forall₂ (List.forall₂_same.mpr fun t _ => Term.same_self t)

/-- Nodes with the same contents are equal. -/
theorem HasContents.eq (h : w.HasContents n c) (h' : w.HasContents n' c)
    (hi : w.objects[i]? = some (.node n)) (hj : w.objects[j]? = some (.node n')) :
    (w.read (.ref i)).eq (w.read (.ref j)) = true := by
  -- the list of the classes is another object, so there are two at least
  obtain ⟨l, hl, hlist⟩ := h.classes
  have hne : l ≠ i := by
    rintro rfl
    rw [hi] at hlist
    cases hlist
  obtain ⟨depth, hdepth⟩ : ∃ depth, w.objects.size = depth + 2 := by
    have hlt := lt_size hi
    have hlt' := lt_size hlist
    exact ⟨w.objects.size - 2, by omega⟩
  have hsame : c.listeners.Matched (List.Forall₂ (w.SameTo depth)) c.listeners :=
    ⟨rfl, fun e he => ⟨e.2, he, List.forall₂_same.mpr fun f _ => Term.same_self _⟩⟩
  have hlisteners := (eq_listeners (h.listeners.shows depth) (h'.listeners.shows depth)
    c.listeners_nodup).mpr hsame
  have hstyle := (eq_style (h.style.shows (depth + 1)) (h'.style.shows (depth + 1)) c.style_nodup
    c.style_nodup).mpr (by cases c.style <;> simp)
  have hattrs := (eq_attrs (h.attrs.unfold_attrs (depth + 1)) (h'.attrs.unfold_attrs (depth + 1))
    c.attrs_nodup c.attrs_nodup).mpr (.refl _)
  have hatom : ∀ a : Atom, (w.unfold true (depth + 2) (.atom a)).eq
      (w.unfold true (depth + 2) (.atom a)) = true := by
    intro a
    rw [unfold_atom, Term.eq, Atom.eq_self]
  have hid : (w.unfold true (depth + 2) (textOrNone c.id)).eq
      (w.unfold true (depth + 2) (textOrNone c.id)) = true := by
    rw [unfold_textOrNone, Term.eq_ofText?]
  rw [read_ref hi, read_ref hj, hdepth]
  show Term.eq (.node i (n.map (w.unfold true (depth + 2))))
    (.node j (n'.map (w.unfold true (depth + 2)))) = true
  simp only [Term.eq, Term.fieldsEq, Node.map, Bool.and_eq_true, h.name, h'.name, h.isVoid,
    h'.isVoid, h.id, h'.id, h.content, h'.content]
  exact ⟨⟨⟨⟨⟨⟨⟨⟨hatom _, hatom _⟩, hid⟩, h.classes.eq h'.classes _⟩, hstyle⟩, hlisteners⟩, hattrs⟩,
    hatom _⟩, h.children.eq h'.children _⟩

/-! ## Normal contents -/

/-- Contents that a constructor takes as they are. -/
structure Normal (w : World) (c : Contents) : Prop where
  named : c.name ≠ ""
  listeners : c.listeners.Filled fun f => w.callable f = true
  events : ∀ event ∈ Entries.keys c.listeners,
    AttributeSet.beginsListener (.text (listenerMark ++ event)) = .ok true
  attrs : ∀ k ∈ Entries.keys c.attrs,
    k ∉ AttributeSet.ownKeys ∧ ∃ b, AttributeSet.beginsListener (.text k) = .ok b
  children : ∀ v ∈ c.children, (∃ s, v = .text s) ∨ w.Has v ∧ ¬ w.IsPrimitive v

theorem Normal.keep (h : w.Normal c) (hkeep : w.Retains 0 w') : w'.Normal c where
  named := h.named
  listeners e he := ⟨(h.listeners e he).1, fun f hf => hkeep.callable ((h.listeners e he).2 f hf)⟩
  events := h.events
  attrs := h.attrs
  children v hv := by
    refine (h.children v hv).imp_right fun ⟨hthere, hnot⟩ => ?_
    cases v with
    | atom a => exact ⟨Value.between_atom _ _ _, hnot⟩
    | ref k =>
      obtain ⟨o, ho⟩ := exists_of_lt_size (hthere k rfl).2
      have ho' := hkeep.kept (Nat.zero_le k) ho
      refine ⟨Value.between_ref (Nat.zero_le k) (lt_size ho'), fun hprimitive => hnot ?_⟩
      exact ho.trans (ho'.symm.trans hprimitive)

end World

/-! ## What is made -/

section Made

open World

variable {w w' : World} {s : AttributeSet} {children : List Term} {c : Contents}

/-- A new node holds what its description stands for. -/
theorem AttributeSet.StandsFor.hasContents_made (h : s.StandsFor children c) :
    (w.addAll (s.made w.objects.size (.text c.name) (.bool c.isVoid) c.content
      children)).HasContents
        (s.node w.objects.size (.text c.name) (.bool c.isVoid) c.content) c where
  name := rfl
  isVoid := rfl
  id := congrArg textOrNone h.id
  classes := ⟨_, rfl, h.classes ▸ AttributeSet.get_classes⟩
  style := h.style ▸ AttributeSet.hasStyle_of_made (.refl _ _)
  listeners := h.listeners ▸ AttributeSet.hasListeners_of_made (.refl _ _)
  attrs := by
    refine ⟨_, rfl, ?_⟩
    rw [AttributeSet.get_attrs, h.attrs]
    simp [Entries.stored, Function.comp_def]
  content := rfl
  children := ⟨_, rfl, h.children ▸ AttributeSet.get_children⟩

variable {a : Arguments} {content : String}

/-- What a call describes stands for normal contents, if its mapping has texts for keys. -/
theorem World.exists_contents_of_describe {name : String} (hname : name ≠ "") (isVoid : Bool)
    (given : w.HasAll a.one ∧ w.HasAll a.two ∧ w.HasAll a.three)
    (hkeys : ∀ es, w.mappingGiven a = some es → ∀ e ∈ es, ∃ k, e.1 = .text k)
    (h : describe (w.read a.one) (w.read a.two) (w.read a.three)
      (a.kw.map fun e => (e.1, w.readPart e.2)) = .ok (s, content, children)) :
    ∃ c : Contents, c.name = name ∧ c.isVoid = isVoid ∧ c.content = content ∧
      s.StandsFor children c ∧ w.Normal c := by
  obtain ⟨roles, -, hroles, -⟩ := of_describe h
  have htexts := exists_text_of_entries hroles hkeys
  have htyped := AttributeSet.typed_of_describe hroles htexts h
  have hlegible := AttributeSet.legible_of_describe hroles htexts h
  have hseparates := separates_of_describe h
  obtain ⟨attrs, hnodup, hattrs⟩ := htyped.attrs
  have hlisteners : Entries.keys (s.listeners.map fun e => (e.1, values e.2)) =
      Entries.keys s.listeners := Entries.keys_map_snd _ _
  refine ⟨{
    name := name
    isVoid := isVoid
    id := s.id
    classes := values s.classes
    style := s.style
    listeners := s.listeners.map fun e => (e.1, values e.2)
    attrs := attrs
    content := content
    children := values children
    style_nodup := htyped.style
    listeners_nodup := hlisteners ▸ htyped.listeners
    attrs_nodup := hnodup }, rfl, rfl, rfl, ⟨rfl, rfl, rfl, rfl, hattrs, rfl⟩, ?_⟩
  refine ⟨hname, fun e he => ?_, ?_, fun k hk => ⟨fun hown => ?_, ?_⟩, fun v hv => ?_⟩
  · obtain ⟨d, hd, rfl⟩ := List.mem_map.mp he
    obtain ⟨hne, hcallable⟩ := filled_of_describe h d hd
    refine ⟨by simpa [values] using hne, fun f hf => ?_⟩
    obtain ⟨t, ht, rfl⟩ := List.mem_map.mp hf
    exact hcallable t ht
  · rw [hlisteners]
    exact hlegible.events
  · refine hseparates.not_mem_keys ?_ hown hk
    rw [hattrs]
    simp [Entries.stored, Function.comp_def]
  · refine hlegible.attrs (.text k) ?_
    obtain ⟨e, he, rfl⟩ := List.mem_map.mp hk
    rw [hattrs]
    exact List.mem_map.mpr ⟨_, List.mem_map_of_mem he, rfl⟩
  · exact (child_of_describe h v hv).imp_right
      (And.imp_left (has_of_mem_childrenGiven given))

/-- What a constructor makes has normal contents, if its mapping has texts for keys. -/
theorem World.exists_contents_of_construct {name : String} {isVoid : Bool} {i : Nat}
    {n : Node Value} (given : w.HasAll a.one ∧ w.HasAll a.two ∧ w.HasAll a.three)
    (hkeys : ∀ es, w.mappingGiven a = some es → ∀ e ∈ es, ∃ k, e.1 = .text k)
    (hrun : (a.construct (.text name) (.bool isVoid)).runIn w = (.ok (.ref i), w'))
    (hn : w'.objects[i]? = some (.node n)) :
    ∃ c : Contents, c.name = name ∧ c.isVoid = isVoid ∧ w'.HasContents n c ∧ w'.Normal c ∧
      w.Extends w' := by
  obtain ⟨s, content, children, flag, hname, -, hflag, hdescribe, hi, rfl⟩ :=
    exists_named_of_construct hrun
  obtain rfl := Value.ref.inj hi
  obtain rfl := hflag nofun
  obtain ⟨c, rfl, rfl, rfl, hstands, hnormal⟩ :=
    exists_contents_of_describe hname isVoid given hkeys hdescribe
  rw [AttributeSet.get_node, Option.some.injEq, Object.node.injEq] at hn
  subst hn
  exact ⟨c, rfl, rfl, hstands.hasContents_made,
    hnormal.keep AttributeSet.extends_made.changesOnly, AttributeSet.extends_made⟩

end Made

end Markup
