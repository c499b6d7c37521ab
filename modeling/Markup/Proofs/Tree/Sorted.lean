import Markup.Proofs.Entries.Sorted
import Markup.Proofs.Tree.Tokens

/-!
# Trees with their maps sorted

The style, the listeners and the plain attributes of a node are maps, of which the order of the
entries can differ while the nodes are equal.  `Tree.sorted` sorts these maps by key at every node,
so that two maps with the same entries become the same list (`Entries.sorted_eq_iff`).

Listeners can be equal without being the same, so sorted trees are compared up to a relation between
listeners (`Tree.Like`).  Trees that are alike in this sense are written alike
(`Tree.rearranged_parts`): the same tags and texts in the same order, but for the order of the plain
attributes within an opening tag and of the declarations within a style.
-/

namespace Markup

/-- The head with its maps sorted by key. -/
def Head.sorted (h : Head) : Head where
  name := h.name
  isVoid := h.isVoid
  id := h.id
  classes := h.classes
  style := h.style.map Entries.sorted
  listeners := h.listeners.sorted
  attrs := h.attrs.sorted
  content := h.content
  style_nodup := by
    intro s hs
    obtain ⟨s', hs', rfl⟩ := Option.map_eq_some_iff.mp hs
    exact Entries.nodup_keys_sorted (h.style_nodup s' hs')
  listeners_nodup := Entries.nodup_keys_sorted h.listeners_nodup
  attrs_nodup := Entries.nodup_keys_sorted h.attrs_nodup

/--
Two heads have the same fields, with listeners that are related one by one.  The entries of their
maps are in the same order.
-/
structure Head.Like (R : Value → Value → Prop) (g h : Head) : Prop where
  name : g.name = h.name
  isVoid : g.isVoid = h.isVoid
  id : g.id = h.id
  classes : g.classes = h.classes
  style : g.style = h.style
  listeners :
    List.Forall₂ (fun l l' => l.1 = l'.1 ∧ List.Forall₂ R l.2 l'.2) g.listeners h.listeners
  attrs : g.attrs = h.attrs
  content : g.content = h.content

/-- Two heads are alike but for the order of the entries in their maps. -/
structure Head.Rearranged (R : Value → Value → Prop) (g h : Head) : Prop where
  name : g.name = h.name
  isVoid : g.isVoid = h.isVoid
  id : g.id = h.id
  classes : g.classes = h.classes
  style : Option.Rel List.Perm g.style h.style
  listeners : Entries.Matched (List.Forall₂ R) g.listeners h.listeners
  attrs : g.attrs.Perm h.attrs
  content : g.content = h.content

variable {R S : Value → Value → Prop}

theorem Head.sorted_like_iff {g h : Head} : g.sorted.Like R h.sorted ↔ g.Rearranged R h := by
  have hstyle : g.style.map Entries.sorted = h.style.map Entries.sorted ↔
      Option.Rel List.Perm g.style h.style := by
    have hnodup := g.style_nodup
    cases hg : g.style with
    | none => cases h.style <;> simp
    | some s =>
      rw [hg] at hnodup
      cases h.style <;> simp [Entries.sorted_eq_iff (hnodup s rfl)]
  have hlisteners := Entries.forall₂_sorted_iff (R := List.Forall₂ R) g.listeners_nodup
    h.listeners_nodup
  have hattrs : g.attrs.sorted = h.attrs.sorted ↔ _ := Entries.sorted_eq_iff g.attrs_nodup
  exact ⟨fun s => ⟨s.name, s.isVoid, s.id, s.classes, hstyle.mp s.style, hlisteners.mp s.listeners,
      hattrs.mp s.attrs, s.content⟩,
    fun s => ⟨s.name, s.isVoid, s.id, s.classes, hstyle.mpr s.style, hlisteners.mpr s.listeners,
      hattrs.mpr s.attrs, s.content⟩⟩

theorem Head.Rearranged.imp {g h : Head} (s : g.Rearranged R h)
    (himp : ∀ l ∈ g.listeners, ∀ f ∈ l.2, ∀ l' ∈ h.listeners, ∀ f' ∈ l'.2, R f f' → S f f') :
    g.Rearranged S h where
  name := s.name
  isVoid := s.isVoid
  id := s.id
  classes := s.classes
  style := s.style
  listeners := by
    refine ⟨s.listeners.1, fun l hl => ?_⟩
    obtain ⟨fns, hfns, hall⟩ := s.listeners.2 l hl
    have hboth := (List.forall₂_and_left _ _).mpr ⟨fun f hf => hf, hall⟩
    exact ⟨fns, hfns, forall₂_imp_of_mem hboth fun f' hf' f hf =>
      himp l hl f hf.1 _ hfns f' hf' hf.2⟩
  attrs := s.attrs
  content := s.content

namespace Tree

mutual

/-- The tree with the maps of every node sorted by key. -/
def sorted : Tree → Tree
  | .text s => .text s
  | .node h children => .node h.sorted (sortedAll children)

/-- Some trees with the maps of every node sorted by key. -/
def sortedAll : List Tree → List Tree
  | [] => []
  | t :: ts => t.sorted :: sortedAll ts

end

@[simp] theorem sortedAll_eq (ts : List Tree) : sortedAll ts = ts.map sorted := by
  induction ts with
  | nil => rfl
  | cons t ts ih => rw [sortedAll, ih, List.map_cons]

/-- Two trees are the same but for their listeners, which are related one by one. -/
inductive Like (R : Value → Value → Prop) : Tree → Tree → Prop
  | text (s : String) : Like R (.text s) (.text s)
  | node {g h : Head} {ts us : List Tree} (heads : g.Like R h)
      (children : List.Forall₂ (Like R) ts us) : Like R (.node g ts) (.node h us)

theorem Like.refl (hR : ∀ v, R v v) (t : Tree) : t.Like R t := by
  induction t with
  | text s => exact .text s
  | node h children ih =>
    refine .node ⟨rfl, rfl, rfl, rfl, rfl, ?_, rfl, rfl⟩ (List.forall₂_same.mpr ih)
    exact List.forall₂_same.mpr fun l _ => ⟨rfl, List.forall₂_same.mpr fun v _ => hR v⟩

theorem Like.symm {t u : Tree} (h : t.Like R u) (hR : ∀ v v', R v v' → R v' v) : u.Like R t := by
  induction t generalizing u with
  | text s =>
    cases h
    exact .text s
  | node g ts ih =>
    cases h with
    | node heads children =>
      have hlisteners := heads.listeners.flip.imp fun l l' hl =>
        And.intro hl.1.symm (hl.2.flip.imp fun v v' => hR v' v)
      exact .node ⟨heads.name.symm, heads.isVoid.symm, heads.id.symm, heads.classes.symm,
          heads.style.symm, hlisteners, heads.attrs.symm, heads.content.symm⟩
        (forall₂_imp_of_mem children.flip fun t ht u htu => ih t ht htu)

theorem Like.trans {t u x : Tree} (h : t.Like R u) (h' : u.Like R x)
    (hR : ∀ v v' v'', R v v' → R v' v'' → R v v'') : t.Like R x := by
  induction t generalizing u x with
  | text s =>
    cases h
    exact h'
  | node g ts ih =>
    cases h with
    | node heads children =>
      cases h' with
      | node heads' children' =>
        have hlisteners := forall₂_join heads.listeners heads'.listeners.flip
          fun l _ l'' l' _ hl hl' => And.intro (hl.1.trans hl'.1)
            (forall₂_join hl.2 hl'.2.flip fun v _ v'' v' _ hv hv' => hR v v' v'' hv hv')
        exact .node ⟨heads.name.trans heads'.name, heads.isVoid.trans heads'.isVoid,
            heads.id.trans heads'.id, heads.classes.trans heads'.classes,
            heads.style.trans heads'.style, hlisteners, heads.attrs.trans heads'.attrs,
            heads.content.trans heads'.content⟩
          (forall₂_join children children'.flip fun t ht _ _ _ htu hux => ih t ht htu hux)

theorem like_text_iff {s s' : String} : (Tree.text s).Like R (.text s') ↔ s = s' := by
  constructor
  · rintro ⟨⟩
    rfl
  · rintro rfl
    exact .text s

theorem like_node_iff {g h : Head} {ts us : List Tree} :
    (Tree.node g ts).Like R (.node h us) ↔ g.Like R h ∧ List.Forall₂ (Like R) ts us := by
  constructor
  · rintro ⟨⟩
    exact ⟨‹_›, ‹_›⟩
  · exact fun h => .node h.1 h.2

theorem not_sorted_text_like_node {s : String} {h : Head} {us : List Tree} :
    ¬ (Tree.text s).sorted.Like R (Tree.node h us).sorted := by
  rw [sorted, sorted]
  rintro ⟨⟩

theorem not_sorted_node_like_text {g : Head} {ts : List Tree} {s : String} :
    ¬ (Tree.node g ts).sorted.Like R (Tree.text s).sorted := by
  rw [sorted, sorted]
  rintro ⟨⟩

theorem sorted_like_node_iff {g h : Head} {ts us : List Tree} :
    (Tree.node g ts).sorted.Like R (Tree.node h us).sorted ↔
      g.Rearranged R h ∧ List.Forall₂ (fun t u => t.sorted.Like R u.sorted) ts us := by
  rw [sorted, sorted, like_node_iff, Head.sorted_like_iff, sortedAll_eq, sortedAll_eq,
    List.forall₂_map_left_iff, List.forall₂_map_right_iff]

end Tree

/-! ## How they are written -/

/-- The pairs before the style and the plain attributes. -/
def Head.firstPairs (h : Head) : List (String × String) :=
  (h.id.map ("id", ·)).toList ++ if h.classes.isEmpty then [] else [("class", h.className)]

/--
Two parts of written trees are the same, but for the order of the declarations within the style of
an opening tag and of the plain attributes behind it.
-/
inductive Token.Rearranged : Token → Token → Prop
  | same (p : Token) : Rearranged p p
  | opening (name : String) (first : List (String × String)) {style style' : Option Style}
      {attrs attrs' : List (String × String)} (hstyle : Option.Rel List.Perm style style')
      (hattrs : attrs.Perm attrs') :
      Rearranged
        (.opening name (first ++ (style.map fun s => ("style", s.write)).toList ++ attrs))
        (.opening name (first ++ (style'.map fun s => ("style", s.write)).toList ++ attrs'))

theorem Head.Rearranged.opening {g h : Head} (hgh : g.Rearranged R h) :
    Token.Rearranged (.opening g.name g.pairs) (.opening h.name h.pairs) := by
  have hpairs : ∀ h : Head, h.pairs = h.firstPairs ++
      (h.style.map fun s => ("style", s.write)).toList ++ h.shownAttrs := fun h => rfl
  have hfirst : g.firstPairs = h.firstPairs := by
    rw [firstPairs, firstPairs, className, className, hgh.id, hgh.classes]
  rw [hpairs, hpairs, hgh.name, hfirst]
  exact .opening _ _ hgh.style (hgh.attrs.filterMap _)

/-- Trees that are alike when they are sorted are written alike. -/
theorem Tree.rearranged_parts {t u : Tree} (h : t.sorted.Like R u.sorted) :
    List.Forall₂ Token.Rearranged t.parts u.parts := by
  induction t generalizing u with
  | text s =>
    cases u with
    | text s' =>
      obtain rfl := like_text_iff.mp h
      exact .cons (.same _) .nil
    | node h' us => cases h
  | node g ts ih =>
    cases u with
    | text s' => cases h
    | node h' us =>
      obtain ⟨hhead, hchildren⟩ := sorted_like_node_iff.mp h
      have hbelow : List.Forall₂ Token.Rearranged (partsOf ts) (partsOf us) := by
        clear h
        induction hchildren with
        | nil => exact .nil
        | cons htu _ ihrest =>
          rw [partsOf, partsOf]
          exact List.rel_append (ih _ List.mem_cons_self htu)
            (ihrest fun t ht => ih t (List.mem_cons_of_mem _ ht))
      have htext : g.text = h'.text := by rw [Head.text, Head.text, hhead.content]
      have hopens : g.opensOnly ts = h'.opensOnly us := by
        rw [Head.opensOnly, Head.opensOnly, hhead.isVoid, htext]
        cases hchildren <;> rfl
      rw [parts, parts, hopens]
      refine .cons hhead.opening ?_
      split_ifs
      · exact .nil
      · rw [htext, hhead.name]
        exact .cons (.same _) (List.rel_append hbelow (.cons (.same _) .nil))

end Markup
