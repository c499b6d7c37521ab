import Markup.Proofs.Document.Memory
import Markup.Proofs.Tree.Rendered

/-!
# Showing nodes whose classes may be anything

What constructors make is well-typed except that the classes of a node may be a list of anything
(`Term.Coerced`).  Such a term shows a tree exactly if all classes in it are texts, and then it is
written and materialised as the tree is.  Otherwise both fail at the first node in document order
that has another class, and with the same fault (`Html.renderChild_of_not_shows`,
`Host.Follows.materializeChild_of_not_shows`).
-/

namespace Markup

namespace Term

/-- A term whose nodes are well-typed, except that their classes are a list of any items. -/
inductive Coerced : Term → Prop
  | text (s : String) : Coerced (.text s)
  | node {id : Nat} {n : Node Term} {h : Head} {classes items : List Term} {list holder : Nat}
      (fields : { n with classes := .list list [] }.Shows h)
      (given : n.classes = .list list classes) (holder : n.children = .list holder items)
      (below : ∀ t ∈ items, Coerced t) :
      Coerced (.node id n)

end Term

/-- A node with texts for classes is well-typed if it is with none. -/
theorem Node.shows_of_classes {n : Node Term} {h : Head} {list : Nat} {names : List String}
    (fields : { n with classes := .list list [] }.Shows h)
    (given : n.classes = .list list (names.map .text)) : n.Shows { h with classes := names } :=
  ⟨fields.name, fields.isVoid, fields.id, ⟨list, given⟩, fields.style, fields.listeners,
    fields.attrs, fields.content⟩

/-- Terms of which each shows some tree show trees one by one. -/
theorem exists_forall₂_shows {items : List Term} (h : ∀ t ∈ items, ∃ tree, t.Shows tree) :
    ∃ children, List.Forall₂ Term.Shows items children := by
  induction items with
  | nil => exact ⟨[], .nil⟩
  | cons t items ih =>
    obtain ⟨tree, htree⟩ := h t List.mem_cons_self
    obtain ⟨children, hchildren⟩ := ih fun u hu => h u (List.mem_cons_of_mem t hu)
    exact ⟨tree :: children, .cons htree hchildren⟩

/-- A node with texts for classes shows a tree unless something below it does not. -/
theorem Term.not_forall_shows {id list holder : Nat} {n : Node Term} {h : Head}
    {names : List String} {items : List Term}
    (fields : { n with classes := .list list [] }.Shows h)
    (given : n.classes = .list list (names.map .text)) (hholder : n.children = .list holder items)
    (hnot : ¬ ∃ tree, (Term.node id n).Shows tree) : ¬ ∀ t ∈ items, ∃ tree, t.Shows tree := by
  intro hall
  obtain ⟨children, hchildren⟩ := exists_forall₂_shows hall
  exact hnot ⟨_, .node (Node.shows_of_classes fields given) hholder hchildren⟩

/-! ## Writing -/

namespace Html

/-- Items that are not all texts cannot be joined. -/
theorem joinTexts_of_not_texts {items : List Term} (h : ¬ ∃ names : List String,
    items = names.map .text) : joinTexts items = .error .unsuitable := by
  suffices htexts : textsOf items = .error .unsuitable by
    rw [joinTexts, htexts]
    rfl
  induction items with
  | nil => exact absurd ⟨[], rfl⟩ h
  | cons t items ih =>
    by_cases ht : ∃ s, t = .text s
    · obtain ⟨s, rfl⟩ := ht
      have hrest : ¬ ∃ names : List String, items = names.map .text := by
        rintro ⟨names, rfl⟩
        exact h ⟨s :: names, rfl⟩
      have hlater := ih hrest
      rw [textsOf] at hlater ⊢
      rw [List.mapM_cons, hlater]
      rfl
    · rw [textsOf, List.mapM_cons]
      split
      · next s => exact absurd ⟨s, rfl⟩ ht
      · rfl

/-- The classes of a node are there to be joined if they are not all texts. -/
theorem truthy_of_not_texts {list : Nat} {items : List Term} (h : ¬ ∃ names : List String,
    items = names.map .text) : (Term.list list items).truthy = true := by
  cases items with
  | nil => exact absurd ⟨[], rfl⟩ h
  | cons t items => rfl

theorem shownPairs_of_not_texts {n : Node Term} {h : Head} {list : Nat} {classes : List Term}
    (fields : { n with classes := .list list [] }.Shows h) (given : n.classes = .list list classes)
    (hnot : ¬ ∃ names : List String, classes = names.map .text) :
    shownPairs n.id n.classes n.style n.attrs = .error .unsuitable := by
  have hid := shownId_of_shows fields
  dsimp only at hid
  rw [shownPairs, hid, ok_bind, given, shownClasses, if_pos (truthy_of_not_texts hnot),
    joinClasses, joinTexts_of_not_texts hnot]
  rfl

/-- A child that cannot be written stops the writing of its siblings. -/
theorem renderItems_of_not_shows {items : List Term}
    (hitems : ∀ t ∈ items, (¬ ∃ tree, t.Shows tree) → renderChild t = .error .unsuitable)
    (hnot : ¬ ∀ t ∈ items, ∃ tree, t.Shows tree) : renderItems items = .error .unsuitable := by
  induction items with
  | nil => exact absurd (fun t ht => nomatch ht) hnot
  | cons t items ih =>
    by_cases ht : ∃ tree, t.Shows tree
    · obtain ⟨tree, htree⟩ := ht
      have hrest : ¬ ∀ u ∈ items, ∃ tree, u.Shows tree :=
        fun hall => hnot (List.forall_mem_cons.mpr ⟨⟨tree, htree⟩, hall⟩)
      rw [renderItems, renderChild_of_shows htree, ok_bind,
        ih (fun u hu => hitems u (List.mem_cons_of_mem t hu)) hrest]
      rfl
    · rw [renderItems, hitems t List.mem_cons_self ht]
      rfl

/-- What does not show a tree cannot be written, for a class that is no text. -/
theorem renderChild_of_not_shows {t : Term} (ht : t.Coerced) (hnot : ¬ ∃ tree, t.Shows tree) :
    renderChild t = .error .unsuitable := by
  induction ht with
  | text s => exact absurd ⟨_, .text s⟩ hnot
  | @node id n h classes items list holder fields given hholder below ih =>
    have hname : n.name = .text h.name := fields.name
    by_cases hclasses : ∃ names : List String, classes = names.map .text
    · obtain ⟨names, rfl⟩ := hclasses
      have hsome := Term.not_forall_shows fields given hholder hnot
      have shows := Node.shows_of_classes fields given
      have htruthy : n.children.truthy = true := by
        cases items with
        | nil => exact absurd (fun t ht => nomatch ht) hsome
        | cons t items =>
          rw [hholder]
          rfl
      have hchildren : renderChildren n.children = .error .unsuitable := by
        rw [hholder, renderChildren, renderItems_of_not_shows ih hsome]
      obtain ⟨name, isVoid, nodeId, _, style, listeners, attrs, content, held⟩ := n
      rw [renderChild, renderNode, shownPairs_of_shows shows, contentText_of_shows shows,
        hchildren, htruthy, show name = .text h.name from hname]
      simp
      rfl
    · have hpairs := shownPairs_of_not_texts fields given hclasses
      obtain ⟨name, isVoid, nodeId, _, style, listeners, attrs, content, held⟩ := n
      rw [renderChild, renderNode, hpairs, show name = .text h.name from hname]
      rfl

end Html

/-! ## Materialising -/

namespace Host

variable {host : Host Operation Value} {w : World}

theorem runIn_setClasses_of_not_texts (e : Value) {list : Nat} {classes : List Term}
    (hnot : ¬ ∃ names : List String, classes = names.map .text) :
    (host.setClasses e (.list list classes)).runIn w = (.error .unsuitable, w) := by
  rw [setClasses, if_pos (Html.truthy_of_not_texts hnot), Html.joinClasses,
    Html.joinTexts_of_not_texts hnot]
  rfl

/-- A node with a class that is no text is materialised as far as its id. -/
theorem materializeChild_of_not_texts (host : Host Operation Value) (id : Nat) {list : Nat}
    {n : Node Term} {h : Head} {classes : List Term}
    (fields : { n with classes := .list list [] }.Shows h)
    (given : n.classes = .list list classes) :
    ∃ rest : Value → Operation Value, host.materializeChild (.node id n) = (do
      let e ← host.createElement (.text h.name)
      host.keepVoid e (.bool h.isVoid)
      host.setAll e (h.attrSettings ++ h.idSetting)
      host.setClasses e (.list list classes)
      rest e) := by
  have hattrs := fun e => setAttributes_eq host e fields
  have hid := fun e => setId_eq host e fields
  have hname : n.name.toValue = .text h.name := by
    rw [show n.name = .text h.name from fields.name]
    rfl
  have hvoid : n.isVoid.toValue = .bool h.isVoid := by
    rw [show n.isVoid = .atom (.bool h.isVoid) from fields.isVoid]
    rfl
  refine ⟨fun e => do
    host.setStyle e n.style
    host.addListeners e n.listeners
    host.addContent e n.content
    host.appendChildren e n.children
    return e, ?_⟩
  dsimp only at hattrs hid
  simp only [setAll_append, ← hattrs, ← hid, bind_assoc, ← hname, ← hvoid, ← given]
  obtain ⟨name, isVoid, nodeId, _, style, listeners, attrs, content, held⟩ := n
  rw [materializeChild, materializeNode]

namespace Follows

variable {R : World → List DocumentCall → List (Value × ElementTree) → Prop}
  {calls : List DocumentCall} {stack : List (Value × ElementTree)}

/-- A child that cannot be materialised stops the materialising of its siblings. -/
theorem appendItems_of_not_shows (F : host.Follows R fun _ => True) {items : List Term}
    (hitems : ∀ t ∈ items, (¬ ∃ tree, t.Shows tree) → ∀ {w calls stack}, R w calls stack →
      ∃ w', (host.materializeChild t).runIn w = (.error .unsuitable, w'))
    (hnot : ¬ ∀ t ∈ items, ∃ tree, t.Shows tree) {e : Value} {h : Head} {made : List ElementTree}
    (hR : R w calls ((e, .element h.parts made) :: stack)) :
    ∃ w', (host.appendItems e items).runIn w = (.error .unsuitable, w') := by
  induction items generalizing w calls made with
  | nil => exact absurd (fun t ht => nomatch ht) hnot
  | cons t items ih =>
    rw [appendItems]
    by_cases ht : ∃ tree, t.Shows tree
    · obtain ⟨tree, htree⟩ := ht
      obtain ⟨v, w₁, hchild, hR₁⟩ :=
        F.materializeChild htree (fun _ _ _ _ _ _ => trivial) hR
      obtain ⟨w₂, happend, hR₂⟩ := F.appendTree hR₁
      have hrest : ¬ ∀ u ∈ items, ∃ tree, u.Shows tree :=
        fun hall => hnot (List.forall_mem_cons.mpr ⟨⟨tree, htree⟩, hall⟩)
      rw [Operation.runIn_bind_ok hchild, Operation.runIn_bind_ok happend]
      exact ih (fun u hu => hitems u (List.mem_cons_of_mem t hu)) hrest hR₂
    · obtain ⟨w', hchild⟩ := hitems t List.mem_cons_self ht hR
      exact ⟨w', Operation.runIn_bind_error hchild⟩

/-- What does not show a tree cannot be materialised, for a class that is no text. -/
theorem materializeChild_of_not_shows (F : host.Follows R fun _ => True) {t : Term}
    (ht : t.Coerced) (hnot : ¬ ∃ tree, t.Shows tree) (hR : R w calls stack) :
    ∃ w', (host.materializeChild t).runIn w = (.error .unsuitable, w') := by
  induction ht generalizing w calls stack with
  | text s => exact absurd ⟨_, .text s⟩ hnot
  | @node id n h classes items list holder fields given hholder below ih =>
    obtain ⟨e, w₁, isVoid, hcreate, hR₁⟩ := F.createElement h.name hR
    obtain ⟨w₂, hvoid, hR₂⟩ := F.keepVoid h.isVoid hR₁
    have hnew : R w₂ _ ((e, .element (.new h.name h.isVoid) []) :: stack) := hR₂
    by_cases hclasses : ∃ names : List String, classes = names.map .text
    · obtain ⟨names, rfl⟩ := hclasses
      have shows := Node.shows_of_classes fields given
      obtain ⟨w₃, hset, hR₃⟩ := F.setAll (Head.settings { h with classes := names })
        (Head.hears_settings fun _ _ _ _ => trivial) hnew
      obtain ⟨w₄, hcontent, hR₄⟩ := F.addContent (h := { h with classes := names }) hR₃
      obtain ⟨w₅, hitems⟩ := F.appendItems_of_not_shows
        (fun u hu hu' _ _ _ hR => ih u hu hu' hR)
        (Term.not_forall_shows fields given hholder hnot) hR₄
      refine ⟨w₅, ?_⟩
      rw [materializeChild_node host shows, Operation.runIn_bind_ok hcreate,
        Operation.runIn_bind_ok hvoid, Operation.runIn_bind_ok hset,
        Operation.runIn_bind_ok hcontent, hholder]
      exact Operation.runIn_bind_error hitems
    · obtain ⟨rest, hmake⟩ := materializeChild_of_not_texts host id fields given
      obtain ⟨w₃, hset, -⟩ := F.setAll (h.attrSettings ++ h.idSetting)
        (fun s hs => Head.hears_settings (h := h) (fun _ _ _ _ => trivial) s (by
          simp only [Head.settings, List.mem_append] at hs ⊢
          tauto)) hnew
      refine ⟨w₃, ?_⟩
      rw [hmake, Operation.runIn_bind_ok hcreate, Operation.runIn_bind_ok hvoid,
        Operation.runIn_bind_ok hset]
      exact Operation.runIn_bind_error (runIn_setClasses_of_not_texts e hclasses)

end Follows

end Host

end Markup
