import Markup.Proofs.Document.Sketch
import Mathlib.Logic.Relation

/-!
# Reading what is neither a text nor a node

When a tree is read at once, what is deep in it is unfolded less far than it would be by itself.
That does not show: the nodes and lists on the way down to a stray are not below it, so that there
are enough steps left to come to its end (`World.Draws.stray_eq_read`).
-/

namespace Markup

namespace World

variable {w w' : World} {v : Value} {k i n : Nat}

/-- What lies below an object either on the way down a tree to some object, or below that one. -/
structure Toward (w : World) (k i j : Nat) : Prop where
  shows : w.ShowsObject i j
  way : Relation.ReflTransGen w.ShowsObject k i ∨
    (∃ n, w.objects[i]? = some (.node n) ∧ n.children = .ref j) ∨
    ∃ vs, w.objects[i]? = some (.list vs) ∧ (j = k ∨ ∃ n, w.objects[j]? = some (.node n))

/-- What lies below something that ends does so too. -/
theorem Ends.of_below (hk : w.Ends (.ref k)) (h : Relation.ReflTransGen w.ShowsObject k i) :
    w.Ends (.ref i) := by
  induction h with
  | refl => exact hk
  | tail _ hstep ih =>
    obtain ⟨-, o, ho, hshown⟩ := hstep
    cases ih with
    | ref object below =>
      obtain rfl := Option.some.inj (object.symm.trans ho)
      exact below _ hshown

theorem Ends.within_toward (hk : w.Ends (.ref k)) (h : Relation.ReflTransGen w.ShowsObject k i) :
    Within (w.Toward k) w.objects.size i :=
  (hk.of_below h).within.imp fun _ _ hj => hj.shows

/-- Below the object itself nothing is left out. -/
theorem within_of_toward (h : Within (w.Toward k) n i)
    (hk : Relation.ReflTransGen w.ShowsObject k i) : Within w.ShowsObject n i := by
  induction n generalizing i with
  | zero => cases h
  | succ n ih => exact fun j hj => ih (h j ⟨hj, .inl hk⟩) (hk.tail hj)

/-- On the way down a tree, every way ends if it does below the object that it leads to. -/
theorem Draws.exists_within_toward {sk : Sketch Value} (hk : w.Ends (.ref k))
    (s : w.Draws v sk) : ∃ n, ∀ i m, v = .ref i → w.objects[i]? = some (.node m) →
      Within (w.Toward k) n i := by
  induction sk generalizing v with
  | text x =>
    cases s
    exact ⟨0, fun i m hi => nomatch hi⟩
  | stray u =>
    cases s with
    | stray h =>
      refine ⟨0, fun i m hi hm => ?_⟩
      subst hi
      cases h with
      | object ho hnot =>
        obtain rfl := Option.some.inj (ho.symm.trans hm)
        exact absurd rfl (hnot m)
  | node h children ih =>
    obtain ⟨id, m, vs, rfl, object, -, ⟨list, hlist, hitems⟩, below⟩ := s.exists_node
    have hparts : ∀ u ∈ vs, ∃ n, ∀ i m, u = .ref i → w.objects[i]? = some (.node m) →
        Within (w.Toward k) n i := by
      intro u hu
      obtain ⟨c, hc, hdraws⟩ := exists_mem_of_forall₂ below.flip hu
      exact ih c hc hdraws
    obtain ⟨n, hn⟩ := exists_bound_of_forall
      (fun hle h i m hi hm => (h i m hi hm).mono hle) hparts
    have hholder : Within (w.Toward k) (n + w.objects.size + 1) list := by
      by_cases hreach : Relation.ReflTransGen w.ShowsObject k list
      · exact (hk.within_toward hreach).mono (by omega)
      · rintro j ⟨⟨-, o, ho, hshown⟩, hway⟩
        obtain rfl := Option.some.inj (hitems.symm.trans ho)
        obtain hway | ⟨m', hm', -⟩ | ⟨-, -, rfl | ⟨m', hm'⟩⟩ := hway
        · exact absurd hway hreach
        · cases hitems.symm.trans hm'
        · exact (hk.within_toward .refl).mono (by omega)
        · exact (hn (.ref j) hshown j m' rfl hm').mono (by omega)
    refine ⟨n + w.objects.size + 2, fun i m' hi hm' => ?_⟩
    cases hi
    obtain rfl := Object.node.inj (Option.some.inj (object.symm.trans hm'))
    by_cases hreach : Relation.ReflTransGen w.ShowsObject k id
    · exact (hk.within_toward hreach).mono (by omega)
    · rintro j ⟨-, hway⟩
      obtain hway | ⟨m', hm', hj⟩ | ⟨_, hvs, -⟩ := hway
      · exact absurd hway hreach
      · obtain rfl := Object.node.inj (Option.some.inj (object.symm.trans hm'))
        obtain rfl := Value.ref.inj (hlist.symm.trans hj)
        exact hholder
      · cases object.symm.trans hvs

/-- On the way down a tree, a stray is unfolded far enough where there are steps enough. -/
theorem Draws.stray_eq_of_within {sk : Sketch Term} {depth : Nat} (hk : w.Ends (.ref k))
    (s : (w.unfold true depth v).Draws sk) (hobjects : w.Draws v (sk.map Term.toValue))
    (hwithin : ∀ i, v = .ref i → (i = k ∨ ∃ n, w.objects[i]? = some (.node n)) →
      Within (w.Toward k) depth i)
    (hdepth : depth ≤ w.depthBound) :
    ∀ t ∈ sk.strays, t.toValue = .ref k → t = w.read t.toValue := by
  induction sk generalizing v depth with
  | text x => exact fun t ht => absurd ht List.not_mem_nil
  | stray u =>
    intro t ht hvalue
    rw [Sketch.strays, List.mem_singleton] at ht
    rw [ht, s.eq_of_stray, toValue_unfold] at hvalue ⊢
    have hends : w.Ends v := hvalue ▸ hk
    refine (hends.unfoldWith_eq (fun i hi => ?_) hdepth).symm
    obtain rfl := Value.ref.inj (hi.symm.trans hvalue)
    exact within_of_toward (hwithin i hi (.inl rfl)) .refl
  | node head children ih =>
    obtain ⟨id, n, list, items, hnode, -, holder, below⟩ := s.exists_node
    obtain ⟨m, n, rfl, rfl, object, rfl⟩ := unfoldWith_eq_node hnode
    obtain ⟨j, vs, rfl, hlist, hitems, rfl⟩ := unfoldWith_eq_list holder
    rw [Sketch.map, Sketch.mapAll_eq] at hobjects
    obtain ⟨_, n', vs', hid, object', -, ⟨_, hlist', hitems'⟩, below'⟩ := hobjects.exists_node
    cases hid
    obtain rfl := Object.node.inj (Option.some.inj (object.symm.trans object'))
    obtain rfl := Value.ref.inj (hlist.symm.trans hlist')
    obtain rfl := Object.list.inj (Option.some.inj (hitems.symm.trans hitems'))
    have hchild : ∀ i, .ref i ∈ vs → (i = k ∨ ∃ n, w.objects[i]? = some (.node n)) →
        Within (w.Toward k) j i := by
      intro i hi hway
      have hshown : .ref list ∈ (Object.node n).shown := by simp [Object.shown, Node.parts, hlist]
      have hlt : i < w.objects.size := by
        rcases hway with rfl | ⟨n, hn⟩
        · exact hk.lt_size
        · exact lt_size hn
      exact hwithin id rfl (.inr ⟨n, object⟩) list
        ⟨⟨lt_size hitems, _, object, hshown⟩, .inr (.inl ⟨n, object, hlist⟩)⟩ i
        ⟨⟨hlt, _, hitems, hi⟩, .inr (.inr ⟨vs, hitems, hway⟩)⟩
    have hall := List.forall₂_map_left_iff.mp below
    have hall' := List.forall₂_map_right_iff.mp below'
    clear below below' holder hitems hitems' object object' s hobjects hnode
    rw [Sketch.strays]
    induction hall with
    | nil => exact fun t ht => absurd ht List.not_mem_nil
    | @cons u c us cs hc _ ihcs =>
      obtain ⟨hu, hus⟩ := List.forall₂_cons.mp hall'
      intro t ht
      rw [Sketch.straysOf, List.mem_append] at ht
      rcases ht with ht | ht
      · exact ih c List.mem_cons_self hc hu
          (fun i hi => hchild i (hi ▸ List.mem_cons_self)) (by omega) t ht
      · exact ihcs (fun d hd => ih d (List.mem_cons_of_mem c hd))
          (fun i hi => hchild i (List.mem_cons_of_mem u hi)) hus t ht

/-- Where a tree is read at once, the strays that end are shown as they are by themselves. -/
theorem Draws.stray_eq_read {sk : Sketch Term} (hobjects : w.Draws v (sk.map Term.toValue))
    (s : (w.read v).Draws sk) {t : Term} (ht : t ∈ sk.strays)
    (hends : w.Ends t.toValue) : t = w.read t.toValue := by
  cases hvalue : t.toValue with
  | atom a =>
    cases t with
    | atom b =>
      cases hvalue
      exact (unfold_atom w true w.depthBound a).symm
    | object id o => cases hvalue
  | ref k =>
    rw [hvalue] at hends
    rw [← hvalue]
    refine Draws.stray_eq_of_within hends s hobjects (fun i hi hway => ?_) (Nat.le_refl _) t ht
      hvalue
    rcases hway with rfl | ⟨n, hn⟩
    · exact (hends.within_toward .refl).mono (Nat.le_succ _)
    · obtain ⟨m, hm⟩ := Draws.exists_within_toward hends hobjects
      have hsize := Within.of_bounded (fun _ _ hj => hj.shows.1) (lt_size hn) (hm i n hi hn)
      exact hsize.mono (Nat.le_succ _)

/-! ## While other objects are changed -/

theorem Avoids.mono {opened opened' : Nat → Prop} (h : w.Avoids opened v)
    (hopened : ∀ i, opened' i → opened i) : w.Avoids opened' v :=
  ⟨h.ends, fun i hi => ⟨(h.spared i hi).1, fun hopen => (h.spared i hi).2 (hopened i hopen)⟩⟩

/-- What avoids some objects goes on doing so as long as only they are changed. -/
theorem Avoids.of_changes {opened : Nat → Prop} (h : w.Avoids opened v)
    (hchanges : w.ChangesOnly opened w') : w'.Avoids opened v := by
  obtain ⟨hends, hspared⟩ := h
  induction hends with
  | atom a => exact .atom w' opened a
  | @ref id o object below ih =>
    have hkept := hchanges.spared object (hspared id (.here id)).2
    have hreaches : ∀ {u i}, w'.Reaches u i → (∀ j, w.Reaches u j → w.Reaches (.ref id) j) →
        w.Reaches u i := by
      intro u i hu hdown
      induction hu with
      | here i => exact .here i
      | @through i j o' part object' hpart _ ih' =>
        have hi := (hspared i (hdown i (.here i)))
        obtain ⟨o'', ho''⟩ := exists_of_lt_size hi.1
        obtain rfl := Option.some.inj (object'.symm.trans (hchanges.spared ho'' hi.2))
        exact .through ho'' hpart (ih' fun j hj => hdown j (.through ho'' hpart hj))
    refine ⟨.ref hkept fun p hp => (ih p hp fun i hi => ?_).ends, fun i hi => ?_⟩
    · exact hspared i (.through object (List.mem_append_left _ hp) hi)
    · obtain ⟨hlt, hclosed⟩ := hspared i (hreaches hi fun _ hj => hj)
      exact ⟨Nat.lt_of_lt_of_le hlt hchanges.size_le, hclosed⟩

end World

end Markup
