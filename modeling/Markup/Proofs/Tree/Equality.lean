import Markup.Proofs.Tree.Callables
import Markup.Proofs.Tree.Sorted

/-!
# Equality of trees

Two values of a world that show trees are equal exactly if the trees are alike once the maps of
every node are sorted by key (`World.eq_iff_like`), as long as what the trees have for listeners can
be called.

Equality goes through maps entry by entry (`Term.eq_map_iff`) and through lists item by item
(`Term.allSame_iff`).  It takes an object for the same as itself without a further look, which is
no exception, as it finds each tree equal to itself.
-/

namespace Markup

/-- Relations between the items of lists correspond where they correspond item by item. -/
theorem forall₂_congr_of_forall₂ {α β γ δ : Type} {R : α → γ → Prop} {R' : β → δ → Prop}
    {S : α → β → Prop} {Q : γ → δ → Prop} {as : List α} {bs : List β} {cs : List γ} {ds : List δ}
    (h : List.Forall₂ R as cs) (h' : List.Forall₂ R' bs ds)
    (hiff : ∀ a b, ∀ c ∈ cs, ∀ d ∈ ds, R a c → R' b d → (S a b ↔ Q c d)) :
    List.Forall₂ S as bs ↔ List.Forall₂ Q cs ds := by
  induction h generalizing bs ds with
  | nil => cases h' <;> simp
  | cons hac _ ih =>
    cases h' with
    | nil => simp
    | cons hbd hrest =>
      rw [List.forall₂_cons, List.forall₂_cons,
        hiff _ _ _ List.mem_cons_self _ List.mem_cons_self hac hbd, ih hrest]
      exact fun a b c hc d hd =>
        hiff a b c (List.mem_cons_of_mem _ hc) d (List.mem_cons_of_mem _ hd)

namespace Term

theorem toValue_of_identical {t u : Term} (h : identical t u = true) : t.toValue = u.toValue := by
  cases t <;> cases u <;> simp_all [identical]

theorem allSame_iff {xs ys : List Term} :
    allSame xs ys = true ↔ List.Forall₂ (fun x y => same x y = true) xs ys := by
  refine ⟨fun h => ?_, allSame_of_forall₂⟩
  induction xs generalizing ys with
  | nil =>
    cases ys with
    | nil => exact .nil
    | cons y ys => simp [allSame] at h
  | cons x xs ih =>
    cases ys with
    | nil => simp [allSame] at h
    | cons y ys =>
      rw [allSame, Bool.and_eq_true] at h
      exact .cons h.1 (ih h.2)

theorem allFound_iff {fs es : List (Term × Term)} :
    allFound fs es = true ↔
      ∀ e ∈ es, ∃ f, fs.find? (fun f => same e.1 f.1) = some f ∧ same e.2 f.2 = true := by
  refine ⟨fun h => ?_, allFound_of_forall⟩
  induction es with
  | nil => exact List.forall_mem_nil _
  | cons e es ih =>
    rw [allFound, Bool.and_eq_true] at h
    refine List.forall_mem_cons.mpr ⟨?_, ih h.2⟩
    obtain ⟨h, -⟩ := h
    split at h
    · next f hf => exact ⟨f, hf, h⟩
    · cases h

theorem same_text (s t : String) : same (.text s) (.text t) = true ↔ s = t := by
  rw [← beq_def, text_beq_text, beq_iff_eq]

section Maps

variable {β : Type} {P P' : Term → β → Prop} {es fs : List (Term × Term)} {m m' : Entries String β}

/-- The rows of a map are entries with texts for keys, and something relates their values. -/
def Rows (P : Term → β → Prop) (es : List (Term × Term)) (m : Entries String β) : Prop :=
  List.Forall₂ (fun row e => row.1 = .text e.1 ∧ P row.2 e.2) es m

/-- What is found under a key is the entry with that key. -/
theorem found_iff (hfs : Rows P' fs m') (hnodup : (Entries.keys m').Nodup) {k : String} {t : Term}
    {Q : β → Prop} (hsame : ∀ t' b', P' t' b' → (same t t' = true ↔ Q b')) :
    (∃ f, fs.find? (fun f => same (.text k) f.1) = some f ∧ same t f.2 = true) ↔
      ∃ b, (k, b) ∈ m' ∧ Q b := by
  induction hfs with
  | nil => simp
  | @cons f e fs m' hfe _ ih =>
    obtain ⟨hkey, hvalue⟩ := hfe
    obtain ⟨k', b'⟩ := e
    rw [Entries.keys_cons, List.nodup_cons] at hnodup
    rw [List.find?_cons, hkey]
    by_cases hk : k = k'
    · subst hk
      have hnone : ∀ b, (k, b) ∉ m' := fun b hb => hnodup.1 (Entries.mem_keys_of_mem hb)
      rw [same_self]
      simp [hnone, hsame _ _ hvalue]
    · have hother : same (.text k) (.text k') = false :=
        Bool.eq_false_iff.mpr fun h => hk ((same_text _ _).mp h)
      rw [hother, ih hnodup.2]
      simp [hk]

/-- Maps with texts for keys are equal exactly if they have the same keys with related values. -/
theorem eq_map_iff {R : β → β → Prop} {i j : Nat} (hes : Rows P es m) (hfs : Rows P' fs m')
    (hm' : (Entries.keys m').Nodup)
    (hsame : ∀ t b t' b', P t b → P' t' b' → (same t t' = true ↔ R b b')) :
    eq (.map i es) (.map j fs) = true ↔ m.Matched R m' := by
  have hall : (∀ e ∈ es, ∃ f, fs.find? (fun f => same e.1 f.1) = some f ∧ same e.2 f.2 = true) ↔
      ∀ e ∈ m, ∃ b, (e.1, b) ∈ m' ∧ R e.2 b := by
    induction hes with
    | nil => simp
    | @cons row e es m hrow _ ih =>
      rw [List.forall_mem_cons, List.forall_mem_cons, ih, hrow.1,
        found_iff hfs hm' fun t' b' => hsame _ _ t' b' hrow.2]
  rw [eq, Bool.and_eq_true, beq_iff_eq, allFound_iff, hall, hes.length_eq, hfs.length_eq]
  exact Iff.rfl

/-- Maps whose values stand for something, one to one, are equal exactly if they have the same. -/
theorem eq_map_made_iff {f : β → Term} (hf : ∀ b b', same (f b) (f b') = true ↔ b = b')
    {i j : Nat} (hm : (Entries.keys m).Nodup) (hm' : (Entries.keys m').Nodup) :
    eq (.map i (m.map fun e => (.text e.1, f e.2))) (.map j (m'.map fun e => (.text e.1, f e.2))) =
      true ↔ m.Perm m' := by
  have hrows : ∀ m : Entries String β, Rows (fun t b => t = f b)
      (m.map fun e => (.text e.1, f e.2)) m := fun m =>
    List.forall₂_map_left_iff.mpr (List.forall₂_same.mpr fun _ _ => ⟨rfl, rfl⟩)
  rw [← Entries.matched_eq_iff hm]
  refine eq_map_iff (hrows m) (hrows m') hm' ?_
  rintro _ b _ b' rfl rfl
  exact hf b b'

end Maps

theorem eq_text (s t : String) : eq (.text s) (.text t) = true ↔ s = t := by
  rw [eq_text_iff]
  simp

theorem eq_bool (a b : Bool) : eq (.atom (.bool a)) (.atom (.bool b)) = true ↔ a = b := by
  cases a <;> cases b <;> simp [eq, Atom.eq, Atom.toInt?]

theorem eq_ofText? (s t : Option String) : eq (.ofText? s) (.ofText? t) = true ↔ s = t := by
  cases s <;> cases t <;> simp [ofText?, eq, Atom.eq, Atom.toInt?]

theorem same_toAtom (a b : AttributeValue) :
    same (.atom a.toAtom) (.atom b.toAtom) = true ↔ a = b := by
  rw [same_atoms]
  rcases a with _ | a | s <;> rcases b with _ | b | t
  case flag.flag => cases a <;> cases b <;> simp [AttributeValue.toAtom, Atom.eq, Atom.toInt?]
  all_goals simp [AttributeValue.toAtom, Atom.eq, Atom.toInt?]

/-- Lists of texts are equal exactly if they have the same texts. -/
theorem eq_texts {i j : Nat} {ss ts : List String} :
    eq (.list i (ss.map .text)) (.list j (ts.map .text)) = true ↔ ss = ts := by
  rw [eq, allSame_iff, List.forall₂_map_left_iff, List.forall₂_map_right_iff]
  simp only [same_text, List.forall₂_eq_eq_eq]

end Term

/-- Sorted trees stay alike up to a relation between such listeners as they have. -/
theorem Tree.Like.sorted_imp {R S : Value → Value → Prop} {sort : Value → Prop} {t u : Tree}
    (h : t.sorted.Like R u.sorted) (ht : t.Hears sort) (hu : u.Hears sort)
    (himp : ∀ f f', sort f → sort f' → R f f' → S f f') : t.sorted.Like S u.sorted := by
  induction t generalizing u with
  | text s =>
    cases u with
    | text s' => exact like_text_iff.mpr (like_text_iff.mp h)
    | node => cases h
  | node g ts ih =>
    cases u with
    | text s' => cases h
    | node h' us =>
      obtain ⟨hhead, hchildren⟩ := sorted_like_node_iff.mp h
      refine sorted_like_node_iff.mpr ⟨hhead.imp fun l hl f hf l' hl' f' hf' => ?_, ?_⟩
      · exact himp f f' (ht.head l hl f hf) (hu.head l' hl' f' hf')
      · have hboth := (List.forall₂_and_left _ _).mpr ⟨fun t ht => ht, hchildren⟩
        exact forall₂_imp_of_mem hboth fun u hus t hts =>
          ih t hts.1 hts.2 (ht.below t hts.1) (hu.below u hus)

namespace World

variable {w : World} {depth : Nat}

/-! ## Listeners -/

/-- What is unfolded to a list shows all items of it. -/
theorem exists_list_of_lists {v : Value} {vs : List Value} (h : (w.unfold true depth v).Lists vs) :
    ∃ k i, depth = k + 1 ∧ v = .ref i ∧ w.objects[i]? = some (.list vs) ∧
      w.unfold true depth v = .list i (vs.map (w.unfold true k)) := by
  obtain ⟨i, items, hlist, hitems⟩ := h
  obtain ⟨k, us, rfl, rfl, ho, rfl⟩ := unfoldWith_eq_list hlist
  have hus : us = vs := by
    rw [← hitems, List.map_map]
    exact (List.map_id'' (toValue_unfoldWith w true _ k) us).symm
  subst hus
  exact ⟨k, i, rfl, rfl, ho, hlist⟩

/-- Lists are taken for the same exactly if their items are, one by one. -/
theorem same_lists {v v' : Value} {vs vs' : List Value} (hv : (w.unfold true depth v).Lists vs)
    (hv' : (w.unfold true depth v').Lists vs') :
    w.SameTo depth v v' ↔ List.Forall₂ (w.SameTo (depth - 1)) vs vs' := by
  obtain ⟨k, i, rfl, rfl, hi, heq⟩ := exists_list_of_lists hv
  obtain ⟨k', j, hk, rfl, hj, heq'⟩ := exists_list_of_lists hv'
  obtain rfl := Nat.succ.inj hk
  have hitems : Term.eq (.list i (vs.map (w.unfold true k))) (.list j (vs'.map (w.unfold true k))) =
      true ↔ List.Forall₂ (w.SameTo k) vs vs' := by
    rw [Term.eq, Term.allSame_iff, List.forall₂_map_left_iff, List.forall₂_map_right_iff]
    exact Iff.rfl
  rw [SameTo, heq, heq', Term.same, Bool.or_eq_true, hitems, Nat.add_sub_cancel,
    or_iff_right_iff_imp]
  intro hsame
  obtain rfl : i = j := Value.ref.inj (Term.toValue_of_identical hsame)
  rw [hi, Option.some.injEq, Object.list.injEq] at hj
  exact hj ▸ List.forall₂_same.mpr fun v _ => Term.same_self _

/-- Listeners are equal exactly if they are so under each event, one by one. -/
theorem eq_listeners {v v' : Value} {m m' : Entries String (List Value)}
    (hv : (w.unfold true depth v).ShowsListeners m)
    (hv' : (w.unfold true depth v').ShowsListeners m') (hm' : (Entries.keys m').Nodup) :
    (w.unfold true depth v).eq (w.unfold true depth v') = true ↔
      m.Matched (List.Forall₂ (w.SameTo (depth - 2))) m' := by
  obtain ⟨i, rows, hmap, hrows⟩ := hv
  obtain ⟨j, rows', hmap', hrows'⟩ := hv'
  obtain ⟨k, es, rfl, rfl, -, rfl⟩ := unfoldWith_eq_map hmap
  obtain ⟨k', es', hk, rfl, -, rfl⟩ := unfoldWith_eq_map hmap'
  obtain rfl := Nat.succ.inj hk
  rw [List.forall₂_map_left_iff] at hrows hrows'
  have hshown : ∀ (es : List (Value × Value)) (m : Entries String (List Value)),
      List.Forall₂ (fun row e => Prod.fst (Prod.map (w.unfold true k) (w.unfold true k) row) =
        .text e.1 ∧ (w.unfold true k row.2).Lists e.2) es m →
      Term.Rows (fun t fns => ∃ u, t = w.unfold true k u ∧ t.Lists fns)
        (es.map (Prod.map (w.unfold true k) (w.unfold true k))) m := fun es m h =>
    List.forall₂_map_left_iff.mpr (h.imp fun row e hrow => ⟨hrow.1, row.2, rfl, hrow.2⟩)
  rw [hmap, hmap']
  refine Term.eq_map_iff (hshown es m hrows) (hshown es' m' hrows') hm' ?_
  rintro _ fns _ fns' ⟨u, rfl, hlists⟩ ⟨u', rfl, hlists'⟩
  exact same_lists hlists hlists'

/-! ## Nodes -/

theorem eq_style {t t' : Term} {style style' : Option Style} (ht : t.ShowsStyle style)
    (ht' : t'.ShowsStyle style') (hstyle : ∀ s ∈ style, (Entries.keys s).Nodup)
    (hstyle' : ∀ s ∈ style', (Entries.keys s).Nodup) :
    t.eq t' = true ↔ Option.Rel List.Perm style style' := by
  cases style with
  | none =>
    obtain rfl := ht
    cases style' with
    | none =>
      obtain rfl := ht'
      simp [Term.eq]
    | some s' =>
      obtain ⟨j, rfl⟩ := ht'
      simp [Term.eq]
  | some s =>
    obtain ⟨i, rfl⟩ := ht
    cases style' with
    | none =>
      obtain rfl := ht'
      simp [Term.eq]
    | some s' =>
      obtain ⟨j, rfl⟩ := ht'
      rw [Option.rel_some_some]
      exact Term.eq_map_made_iff Term.same_text (hstyle s rfl) (hstyle' s' rfl)

theorem eq_attrs {t t' : Term} {m m' : Entries String AttributeValue}
    (ht : ∃ i, t = .map i (m.map fun e => (.text e.1, .atom e.2.toAtom)))
    (ht' : ∃ i, t' = .map i (m'.map fun e => (.text e.1, .atom e.2.toAtom)))
    (hm : (Entries.keys m).Nodup) (hm' : (Entries.keys m').Nodup) :
    t.eq t' = true ↔ m.Perm m' := by
  obtain ⟨i, rfl⟩ := ht
  obtain ⟨j, rfl⟩ := ht'
  exact Term.eq_map_made_iff Term.same_toAtom hm hm'

/-- Nodes are equal if and only if their heads, up to the order in maps, and their children are. -/
theorem fieldsEq_iff {n n' : Node Value} {g h : Head} (hn : (n.map (w.unfold true depth)).Shows g)
    (hn' : (n'.map (w.unfold true depth)).Shows h) :
    Term.fieldsEq (n.map (w.unfold true depth)) (n'.map (w.unfold true depth)) = true ↔
      g.Rearranged (w.SameTo (depth - 2)) h ∧
        (w.unfold true depth n.children).eq (w.unfold true depth n'.children) = true := by
  have hlisteners := eq_listeners hn.listeners hn'.listeners h.listeners_nodup
  have hattrs := eq_attrs hn.attrs hn'.attrs g.attrs_nodup h.attrs_nodup
  have hstyle := eq_style hn.style hn'.style g.style_nodup h.style_nodup
  have hclasses : (w.unfold true depth n.classes).eq (w.unfold true depth n'.classes) = true ↔
      g.classes = h.classes := by
    obtain ⟨i, hi⟩ := hn.classes
    obtain ⟨j, hj⟩ := hn'.classes
    rw [show w.unfold true depth n.classes = _ from hi,
      show w.unfold true depth n'.classes = _ from hj, Term.eq_texts]
  have hname := Term.eq_text g.name h.name
  have hvoid := Term.eq_bool g.isVoid h.isVoid
  have hid := Term.eq_ofText? g.id h.id
  have hcontent := Term.eq_ofText? g.content h.content
  rw [← hn.name, ← hn'.name] at hname
  rw [← hn.isVoid, ← hn'.isVoid] at hvoid
  rw [← hn.id, ← hn'.id] at hid
  rw [← hn.content, ← hn'.content] at hcontent
  simp only [Node.map] at hname hvoid hid hstyle hattrs hcontent
  simp only [Term.fieldsEq, Node.map, Bool.and_eq_true, hname, hvoid, hid, hclasses, hstyle,
    hlisteners, hattrs, hcontent]
  constructor
  · rintro ⟨⟨⟨⟨⟨⟨⟨⟨hname, hvoid⟩, hid⟩, hclasses⟩, hstyle⟩, hlisteners⟩, hattrs⟩, hcontent⟩, heq⟩
    exact ⟨⟨hname, hvoid, hid, hclasses, hstyle, hlisteners, hattrs, hcontent⟩, heq⟩
  · rintro ⟨⟨hname, hvoid, hid, hclasses, hstyle, hlisteners, hattrs, hcontent⟩, heq⟩
    exact ⟨⟨⟨⟨⟨⟨⟨⟨hname, hvoid⟩, hid⟩, hclasses⟩, hstyle⟩, hlisteners⟩, hattrs⟩, hcontent⟩, heq⟩

/-! ## Trees -/

/-- Values of a world that are taken for the same are equal, if each equals itself. -/
theorem same_iff_eq {v v' : Value}
    (hself : (w.unfold true depth v).eq (w.unfold true depth v) = true) :
    (w.unfold true depth v).same (w.unfold true depth v') = true ↔
      (w.unfold true depth v).eq (w.unfold true depth v') = true := by
  rw [Term.same, Bool.or_eq_true, or_iff_right_iff_imp]
  intro hsame
  obtain rfl : v = v' := by simpa using Term.toValue_of_identical hsame
  exact hself

/-- Lists are equal where their items are, by pairs. -/
theorem eq_lists_iff {α : Type} {i j : Nat} {vs vs' : List Value} {R R' : Value → α → Prop}
    {Q : α → α → Prop} {ts us : List α} (hvs : List.Forall₂ R vs ts)
    (hvs' : List.Forall₂ R' vs' us)
    (hiff : ∀ t ∈ ts, ∀ u ∈ us, ∀ v v', R v t → R' v' u →
      ((w.unfold true depth v).same (w.unfold true depth v') = true ↔ Q t u)) :
    Term.eq (.list i (vs.map (w.unfold true depth))) (.list j (vs'.map (w.unfold true depth))) =
      true ↔ List.Forall₂ Q ts us := by
  rw [Term.eq, Term.allSame_iff, List.forall₂_map_left_iff, List.forall₂_map_right_iff]
  exact forall₂_congr_of_forall₂ hvs hvs' fun v v' t ht u hu => hiff t ht u hu v v'

/-- What can be called is compared alike however far it is unfolded, if it is at all. -/
theorem rearranged_iff {g h : Head} (hg : g.Hears fun f => w.callable f = true)
    (hdepth : ∀ l ∈ g.listeners, ∀ f ∈ l.2, ∀ j, f = .ref j → 0 < depth) :
    g.Rearranged (w.SameTo depth) h ↔ g.Rearranged w.SameComparand h := by
  have hsame : ∀ l ∈ g.listeners, ∀ f ∈ l.2, ∀ f',
      w.SameTo depth f f' ↔ w.SameComparand f f' :=
    fun l hl f hf _ => same_callable (hg l hl f hf) (hdepth l hl f hf)
  exact ⟨fun s => s.imp fun l hl f hf _ _ f' _ => (hsame l hl f hf f').mp,
    fun s => s.imp fun l hl f hf _ _ f' _ => (hsame l hl f hf f').mpr⟩

/--
Values that show trees are equal exactly if the trees are alike when all their maps are sorted.
-/
theorem eq_iff_like {t u : Tree} {v v' : Value} (hv : (w.unfold true depth v).Shows t)
    (hv' : (w.unfold true depth v').Shows u) (ht : t.Hears fun f => w.callable f = true)
    (hin : ∀ i, v = .ref i → Within w.Opens depth i) :
    (w.unfold true depth v).eq (w.unfold true depth v') = true ↔
      t.sorted.Like w.SameComparand u.sorted := by
  induction t generalizing u v v' depth with
  | text s =>
    generalize w.unfold true depth v = x at hv
    generalize w.unfold true depth v' = y at hv'
    cases hv
    cases hv' with
    | text s' => rw [Term.eq_text, Tree.sorted, Tree.sorted, Tree.like_text_iff]
    | node => exact iff_of_false (by simp [Term.eq]) Tree.not_sorted_text_like_node
  | node g ts ih =>
    obtain ⟨i, n, l, items, hi, hn, hl, hitems⟩ := hv.exists_node
    cases u with
    | text s' =>
      generalize w.unfold true depth v' = y at hv'
      cases hv'
      rw [hi]
      exact iff_of_false (by simp [Term.eq]) Tree.not_sorted_node_like_text
    | node h us =>
      obtain ⟨j, n', l', items', hj, hn', hl', hitems'⟩ := hv'.exists_node
      obtain ⟨k, m, rfl, rfl, object, rfl⟩ := unfoldWith_eq_node hi
      obtain ⟨k₁, m', hk₁, rfl, -, rfl⟩ := unfoldWith_eq_node hj
      obtain rfl := Nat.succ.inj hk₁
      obtain ⟨k, vs, rfl, hm, hlist, rfl⟩ := unfoldWith_eq_list hl
      obtain ⟨k₂, vs', hk₂, -, -, rfl⟩ := unfoldWith_eq_list hl'
      obtain rfl := Nat.succ.inj hk₂
      rw [List.forall₂_map_left_iff] at hitems hitems'
      have hdepth : ∀ l ∈ g.listeners, ∀ f ∈ l.2, ∀ j, f = .ref j → 0 < k + 1 - 2 := by
        intro l hl f hf j hj
        have hpos := depth_pos_of_within object (hasFields_of_shows hn) (hin i rfl) ht.head hl hf hj
        omega
      rw [hi, hj, Tree.sorted_like_node_iff, ← rearranged_iff ht.head hdepth, Term.eq]
      refine (fieldsEq_iff hn hn').trans (and_congr_right fun _ => ?_)
      rw [show w.unfold true (k + 1) m.children = _ from hl,
        show w.unfold true (k + 1) m'.children = _ from hl']
      have hmem := (List.forall₂_and_left _ _).mpr ⟨fun v hv => hv, hitems⟩
      refine eq_lists_iff hmem hitems' fun t hts u _ v v' hv hv' => ?_
      have hbelow : ∀ i, v = .ref i → Within w.Opens k i := by
        rintro i rfl
        have hlt : i < w.objects.size := by
          cases Shows.of_unfold hv.2 with
          | node object _ _ _ => exact lt_size object
        have hholder : w.Opens _ l := .of_object object hlist (by simp [opened, hm])
        exact hin _ rfl l hholder i ⟨hlt, _, hlist, hv.1⟩
      have hself := (ih t hts hv.2 hv.2 (ht.below t hts) hbelow).mpr (.refl (.refl w) _)
      rw [same_iff_eq hself]
      exact ih t hts hv.2 hv' (ht.below t hts) hbelow

end World

end Markup
