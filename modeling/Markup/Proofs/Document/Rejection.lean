import Markup.Proofs.Document.Ledger

/-!
# Trees that no way of output accepts

A node with something below it that is neither a text nor a node can be neither written nor
materialised, and both are refused for the first such child.  The same goes for a list of nodes
that are written one after the other or appended to a parent, which has then gained the elements
that were complete (`output_refuses_alike`).
-/

namespace Markup

open World Operation

/-- The trees before the first sketch that is not one. -/
def Sketch.treesBefore {α : Type} : List (Sketch α) → List Tree
  | [] => []
  | c :: cs =>
    match c.tree? with
    | some t => t :: treesBefore cs
    | none => []

/-- The objects that are written to where children are appended to a list. -/
def Ledger.Writes (d l : Nat) (ledger : Ledger) (i : Nat) : Prop := ledger.Opens d i ∨ i = l

@[simp] theorem Ledger.writes_after {d l : Nat} {ledger : Ledger} {more : List DocumentCall} :
    (ledger.after more).Writes d l = ledger.Writes d l := by
  funext i
  rw [Writes, Writes, opens_after]

namespace World

variable {w₀ w w' : World} {d l p : Nat} {ledger : Ledger} {calls : List DocumentCall}
  {kids : List Value} {gained : List ElementTree} {name : String} {v : Value} {sk : Sketch Term}

/-! ## Appending to a parent -/

/-- An element as a document makes it, by its name and the list of its children. -/
structure IsParent (w : World) (p l : Nat) (name : String) : Prop where
  element : ∃ e : Element Value, w.objects[p]? = some (.element e) ∧ e.childNodes = .ref l ∧
    e.name = .text name ∧ e.extras = []

/-- The world in which nothing is shown of what is written to. -/
def hideWritten (w : World) (l : Nat) (ledger : Ledger) : World :=
  (w.hide ledger.listing).hide (some (.ref l))

/--
How far appending to a parent has come: the ledger has gained calls, the list of the children has
gained elements that hold trees, and all else is as it was.
-/
structure Gains (w₀ : World) (d l : Nat) (ledger : Ledger) (kids : List Value) (w : World)
    (calls : List DocumentCall) (gained : List ElementTree) : Prop where
  hasLedger : w.HasLedger d (ledger.after calls)
  changes : w₀.ChangesOnly (ledger.Writes d l) w
  holds : ∃ es, w.objects[l]? = some (.list (kids ++ es)) ∧
    w.HoldsAll d w₀.objects.size w.objects.size es gained

theorem IsParent.runIn_childNodes (hp : w.IsParent p l name) :
    (member (.ref p) "child_nodes").runIn w = (.ok (.ref l), w) := by
  obtain ⟨⟨_, _, _, _, _, _, _, _, _⟩, he, rfl, rfl, rfl⟩ := hp.element
  exact runIn_member he rfl rfl

theorem IsParent.runIn_label (hp : w.IsParent p l name) :
    (label (.ref p)).runIn w = (.ok (.text name), w) := by
  obtain ⟨⟨_, _, _, _, _, _, _, _, _⟩, he, rfl, rfl, rfl⟩ := hp.element
  exact runIn_member he rfl rfl

theorem IsParent.of_changes {opened : Nat → Prop} (hp : w.IsParent p l name)
    (hchanges : w.ChangesOnly opened w') (hopened : ¬ opened p) : w'.IsParent p l name := by
  obtain ⟨e, he, hparts⟩ := hp.element
  exact ⟨e, hchanges.spared he hopened, hparts⟩

theorem IsParent.not_opens (hp : w.IsParent p l name) (hd : w.HasLedger d ledger) :
    ¬ ledger.Opens d p := by
  obtain ⟨e, he, -⟩ := hp.element
  exact hd.not_opens_of he (by simp) (by simp)

/-- A list that was not handed out is no object that calls are written to. -/
theorem HasLedger.not_opens (hd : w.HasLedger d ledger) {us : List Value}
    (hl : w.objects[l]? = some (.list us)) (hne : ledger.listing ≠ some (.ref l)) :
    ¬ ledger.Opens d l := by
  cases ledger with
  | blank => exact id
  | calls listing entries =>
    obtain ⟨own, _, _, hdoc, -⟩ := hd
    rintro (rfl | rfl)
    · cases hdoc.symm.trans hl
    · exact hne rfl

/-- Replacing a list that was not handed out leaves the ledger alone. -/
theorem HasLedger.replace_list (hd : w.HasLedger d ledger) {us us' : List Value}
    (hl : w.objects[l]? = some (.list us)) (hne : ledger.listing ≠ some (.ref l)) :
    (w.replace l (.list us')).HasLedger d ledger := by
  have hopens := hd.not_opens hl hne
  cases ledger with
  | blank =>
    refine (get_replace_ne ?_).trans hd
    rintro rfl
    cases hl.symm.trans hd
  | calls listing entries =>
    obtain ⟨own, tracing, trace, hdoc, hcalls⟩ := hd
    refine ⟨own, tracing, trace, (get_replace_ne fun heq => hopens (.inl heq.symm)).trans hdoc, ?_⟩
    refine callsOf?_of hcalls (fun i items hi hitems => ?_) fun i items hitems => ?_
    · exact (get_replace_ne fun heq : i = l => hopens (.inr (heq ▸ hi))).trans hitems
    · refine (get_replace_ne ?_).trans hitems
      rintro rfl
      cases hl.symm.trans hitems

/-- Appending a child records the call, and the list of the children ends with the child. -/
theorem runIn_appendChild_ledger {us : List Value} {s : String} (hd : w.HasLedger d ledger)
    (hp : w.IsParent p l name) (hl : w.objects[l]? = some (.list us))
    (hne : ledger.listing ≠ some (.ref l)) (hlabel : (label v).runIn w = (.ok (.text s), w)) :
    ∃ w', ((ledger.host d).appendChild (.ref p) v).runIn w = (.ok (), w') ∧
      w'.HasLedger d (ledger.after [.appendChild (.text name) (.text s)]) ∧
      w'.objects[l]? = some (.list (us ++ [v])) ∧ w.ChangesOnly (ledger.Writes d l) w' := by
  have hopens := hd.not_opens hl hne
  have happend : ∀ {u : World}, u.IsParent p l name → u.objects[l]? = some (.list us) →
      (appendToElement (.ref p) v).runIn u = (.ok (), u.replace l (.list (us ++ [v]))) := by
    intro u hu hul
    rw [appendToElement, runIn_bind_ok hu.runIn_childNodes]
    exact runIn_append hul v
  cases ledger with
  | blank =>
    exact ⟨_, happend hp hl, hd.replace_list hl hne, get_replace_self (lt_size hl),
      changesOnly_replace (.inr rfl)⟩
  | calls listing entries =>
    obtain ⟨w₁, hrecord, hrecords, hspares⟩ := runIn_record hd
      (c := .appendChild (.text name) (.text s)) (by simp [DocumentCall.entry, Showable])
    have hchanges : w.ChangesOnly (Ledger.Opens d (.calls listing entries)) w₁ :=
      ⟨hspares.size_le, fun ho hi => (hspares.kept _ (lt_size ho) (fun heq => hi (.inl heq))
        fun heq => hi (.inr heq)).trans ho⟩
    have hl₁ := hchanges.spared hl hopens
    have hp₁ := hp.of_changes hchanges (hp.not_opens hd)
    have hd₁ : w₁.HasLedger d
        ((Ledger.calls listing entries).after [.appendChild (.text name) (.text s)]) := hrecords
    refine ⟨_, ?_, hd₁.replace_list hl₁ (by simpa using hne), get_replace_self (lt_size hl₁),
      (hchanges.mono fun _ => .inl).trans (changesOnly_replace (.inr rfl))⟩
    exact (runIn_bind_ok hp.runIn_label).trans ((runIn_bind_ok hlabel).trans
      ((runIn_bind_ok hrecord).trans (happend hp₁ hl₁)))

/-! ## Going through the nodes -/

/-- A document and a parent that are ready for nodes to be appended. -/
structure Ready (w : World) (d p l : Nat) (ledger : Ledger) (kids : List Value) (name : String) :
    Prop where
  hasLedger : w.HasLedger d ledger
  parent : w.IsParent p l name
  children : w.objects[l]? = some (.list kids)
  apart : ledger.listing ≠ some (.ref l)

theorem Gains.start (h : w.Ready d p l ledger kids name) : w.Gains d l ledger kids w [] [] where
  hasLedger := by simpa using h.hasLedger
  changes := .refl _ w
  holds := ⟨[], by simpa using h.children, rfl, Nat.le_refl _⟩

/-- What is written to was there at the start. -/
theorem Ready.writes_lt (h : w.Ready d p l ledger kids name) {i : Nat}
    (hi : ledger.Writes d l i) : i < w.objects.size := by
  rcases hi with hi | rfl
  · exact h.hasLedger.opens_lt hi
  · exact lt_size h.children

/-- The parent itself is not written to. -/
theorem Ready.not_writes (h : w.Ready d p l ledger kids name) : ¬ ledger.Writes d l p := by
  obtain ⟨e, he, -⟩ := h.parent.element
  rintro (hi | rfl)
  · exact h.parent.not_opens h.hasLedger hi
  · cases h.children.symm.trans he

/-- Where all that is written to is hidden, no tree is made of it. -/
theorem Ready.not_inTrees (h : w.Ready d p l ledger kids name) {i : Nat}
    (hi : ledger.Writes d l i) {o : Object Value}
    (ho : (w.hideWritten l ledger).objects[i]? = some o) : ¬ o.InTrees := by
  by_cases hnan : o = .notANumber
  · rw [hnan]
    exact id
  · obtain ⟨hhidden, hne⟩ := get_of_hide ho hnan
    rcases hi with hi | rfl
    · exact h.hasLedger.not_inTrees hi hhidden
    · exact absurd rfl hne

theorem hideWritten_changes (w : World) (d l : Nat) (ledger : Ledger) :
    (w.hideWritten l ledger).ChangesOnly (ledger.Writes d l) w := by
  have hlist : (w.hideWritten l ledger).ChangesOnly (ledger.Writes d l)
      (w.hide ledger.listing) := by
    refine ⟨by simp [hideWritten], fun {i o} ho hi => ?_⟩
    rw [hideWritten, hide] at ho
    exact (get_replace_ne fun heq : i = l => hi (.inr heq)).symm.trans ho
  exact hlist.trans ((hide_changes w d ledger).mono fun _ => .inl)

theorem Gains.ne_node (h : w₀.Gains d l ledger kids w calls gained) {i : Nat}
    (hi : ledger.Writes d l i) (n : Node Value) : w.objects[i]? ≠ some (.node n) := by
  rcases hi with hi | rfl
  · exact h.hasLedger.ne_node (by simpa using hi) n
  · obtain ⟨es, hes, -⟩ := h.holds
    exact fun hn => nomatch hes.symm.trans hn

/-- What is drawn where all that is written to is hidden goes on being drawn. -/
theorem Gains.draws (h : w₀.Gains d l ledger kids w calls gained)
    (hr : w₀.Ready d p l ledger kids name) {sk : Sketch Value}
    (s : (w₀.hideWritten l ledger).Draws v sk) :
    w.Draws v sk ∧ (w.hide ledger.listing).Draws v sk := by
  have hchanges := (hideWritten_changes w₀ d l ledger).trans h.changes
  have hbefore : ∀ i o, ledger.Writes d l i → (w₀.hideWritten l ledger).objects[i]? = some o →
      ¬ o.InTrees := fun _ _ hi ho => hr.not_inTrees hi ho
  refine ⟨s.of_changes hchanges hbefore fun _ n hi => h.ne_node hi n,
    s.of_changes (hchanges.trans ((changes_hide w d ledger).mono fun _ => .inl)) hbefore ?_⟩
  exact fun i n hi hn => h.ne_node hi n (get_of_hide hn (by simp)).1

/-- What can be called goes on doing so, as it is not written to. -/
theorem Gains.callable (h : w₀.Gains d l ledger kids w calls gained)
    (hr : w₀.Ready d p l ledger kids name) (hv : w₀.Callable v) : w.Callable v := by
  have hkept : ∀ {i : Nat} {o : Object Value}, w₀.objects[i]? = some o →
      (∀ items, o ≠ .list items) → (∀ r, o ≠ .recordingDocument r) → w.objects[i]? = some o := by
    intro i o ho hlist hdocument
    refine h.changes.spared ho ?_
    rintro (hi | rfl)
    · exact hr.hasLedger.not_opens_of ho hdocument hlist hi
    · exact hlist _ (Option.some.inj (ho.symm.trans hr.children))
  cases hv with
  | errorClass c => exact .errorClass c
  | listener hl => exact .listener (hkept hl (by simp) (by simp))
  | constructor hc => exact .constructor (hkept hc (by simp) (by simp))

/-- A node is offered in the same way after other nodes were appended. -/
theorem Gains.offers (h : w₀.Gains d l ledger kids w calls gained)
    (hgrown : w = w₀ ∨ w₀.objects.size < w.objects.size)
    (hr : w₀.Ready d p l ledger kids name) (ho : w₀.Offers (w₀.hideWritten l ledger) v sk) :
    ∃ sk', w.Offers (w.hide ledger.listing) v sk' ∧ sk'.map Term.toValue = sk.map Term.toValue := by
  obtain ⟨hobjects, hhidden⟩ := h.draws hr ho.objects
  have hread : ∃ sk', (w.read v).Draws sk' ∧ sk'.map Term.toValue = sk.map Term.toValue := by
    obtain rfl | hgrown := hgrown
    · exact ⟨sk, ho.read, rfl⟩
    · refine hobjects.unfold ?_
      have hle := height_le_of_draws ho.read
      rw [World.depthBound] at hle
      rw [Sketch.height_map]
      omega
  obtain ⟨sk', hdraws, hmap⟩ := hread
  refine ⟨sk', ⟨?_, hdraws, by rwa [hmap], fun m hm => ?_⟩, hmap⟩
  · obtain ⟨head, children, rfl⟩ := ho.isNode
    cases sk' with
    | node head' children' => exact ⟨head', children', rfl⟩
    | text s => cases hmap
    | stray t => cases hmap
  · rw [← Sketch.heads_map Term.toValue, hmap, Sketch.heads_map] at hm
    exact fun r hr' callee hcallee => h.callable hr (ho.callable m hm r hr' callee hcallee)

end World

namespace Operation

/-- Materialises a node and appends it to a parent. -/
def appendNode (document parent v : Value) : Operation Unit := do
  discard <| find document "append_child"
  (← hostOf document).appendChild parent (← materializeWith document v)

end Operation

namespace World

variable {w₀ w w' : World} {d l p : Nat} {ledger : Ledger} {calls : List DocumentCall}
  {kids : List Value} {gained : List ElementTree} {name : String} {v : Value} {sk : Sketch Term}

theorem runIn_appendNode (hd : w.HasLedger d ledger) (parent : Value) :
    (appendNode (.ref d) parent v).runIn w =
      (materialize v (.ref d) >>= (ledger.host d).appendChild parent).runIn w := by
  rw [appendNode]
  refine (runIn_bind_ok (runIn_discard (runIn_find_ledger hd))).trans ?_
  exact runIn_bind_ok (runIn_hostOf_ledger hd)

/-- The first of the strays, which is the same wherever the objects are. -/
theorem exists_strays_of_map {sk sk' : Sketch Term} {t : Term} {rest : List Term}
    (hmap : sk'.map Term.toValue = sk.map Term.toValue) (ht : sk.strays = t :: rest) :
    ∃ t' rest', sk'.strays = t' :: rest' ∧ t'.toValue = t.toValue := by
  have hstrays : sk'.strays.map Term.toValue = (t :: rest).map Term.toValue := by
    rw [← Sketch.strays_map, hmap, Sketch.strays_map, ht]
  obtain ⟨t', rest', h, hvalue, -⟩ := List.map_eq_cons_iff.mp hstrays
  exact ⟨t', rest', h, hvalue⟩

/-- What was made since the start is not touched by writing. -/
theorem Ready.get_of_le (hr : w₀.Ready d p l ledger kids name)
    (h : w.ChangesOnly (ledger.Writes d l) w') {i : Nat} (hlo : w₀.objects.size ≤ i)
    (hhi : i < w.objects.size) : w'.objects[i]? = w.objects[i]? := by
  obtain ⟨o, ho⟩ := exists_of_lt_size hhi
  rw [ho]
  exact h.spared ho fun hi => absurd (hr.writes_lt hi) (Nat.not_lt.mpr hlo)

/-- Materialising a node leaves the children of the parent alone. -/
theorem Gains.keeps_children (h : w₀.Gains d l ledger kids w calls gained)
    (hr : w₀.Ready d p l ledger kids name) {more : List DocumentCall}
    {stack : List (Value × ElementTree)} (hR : Progress w d (ledger.after calls) w' more stack) :
    w.ChangesOnly (ledger.Writes d l) w' ∧ ∃ es, w'.objects[l]? = some (.list (kids ++ es)) ∧
      w'.HoldsAll d w₀.objects.size w.objects.size es gained := by
  have hchanges : w.ChangesOnly (ledger.Writes d l) w' :=
    hR.changes.mono fun i hi => .inl (by rwa [Ledger.opens_after] at hi)
  obtain ⟨es, hes, hall⟩ := h.holds
  refine ⟨hchanges, es, hR.changes.spared hes (h.hasLedger.not_opens hes ?_),
    hall.frame fun i hlo hhi => hr.get_of_le hchanges hlo hhi⟩
  rw [Ledger.listing_after]
  exact hr.apart

theorem Gains.progress (h : w₀.Gains d l ledger kids w calls gained)
    (hr : w₀.Ready d p l ledger kids name) {more : List DocumentCall}
    {stack : List (Value × ElementTree)} (hR : Progress w d (ledger.after calls) w' more stack) :
    w₀.Gains d l ledger kids w' (calls ++ more) gained := by
  obtain ⟨hchanges, es, hes, hall⟩ := h.keeps_children hr hR
  refine ⟨?_, h.changes.trans hchanges, es, hes, hall.mono hchanges.size_le⟩
  rw [← Ledger.after_after]
  exact hR.hasLedger h.hasLedger

/-- A node that is complete is appended: its calls are recorded and its element is gained. -/
theorem Gains.append_tree (h : w₀.Gains d l ledger kids w calls gained)
    (hgrown : w = w₀ ∨ w₀.objects.size < w.objects.size)
    (hr : w₀.Ready d p l ledger kids name) (ho : w₀.Offers (w₀.hideWritten l ledger) v sk)
    {tree : Tree} (ht : sk.tree? = some tree) :
    ∃ w', (appendNode (.ref d) (.ref p) v).runIn w = (.ok (), w') ∧
      w₀.objects.size < w'.objects.size ∧
      w₀.Gains d l ledger kids w' (calls ++ (tree.calls ++
        [.appendChild (.text name) (.text tree.label)])) (gained ++ [tree.element]) := by
  obtain ⟨sk', ho', hmap⟩ := h.offers hgrown hr ho
  have ht' : sk'.tree? = some tree := by
    rw [← Sketch.tree?_map Term.toValue, hmap, Sketch.tree?_map, ht]
  have hlisting : (ledger.after calls).listing = ledger.listing := Ledger.listing_after
  rw [← hlisting] at ho'
  obtain ⟨e, w₁, hmake, hR⟩ := (ho'.materializes h.hasLedger).makes tree ht'
  rw [Sketch.calls_of_tree? ht'] at hR
  obtain ⟨hchanges₁, es, hes, hall⟩ := h.keeps_children hr hR
  obtain ⟨mid, hholds, hmid⟩ := hR.holds
  have hp₁ := hr.parent.of_changes (h.changes.trans hchanges₁) hr.not_writes
  obtain ⟨w₂, happend, hd₂, hl₂, hchanges₂⟩ := runIn_appendChild_ledger (hR.hasLedger h.hasLedger)
    hp₁ hes (by rw [Ledger.listing_after, hlisting]; exact hr.apart) (runIn_label hholds)
  rw [Ledger.writes_after, Ledger.writes_after] at hchanges₂
  have hsame : ∀ i, w₀.objects.size ≤ i → i < w₁.objects.size →
      w₂.objects[i]? = w₁.objects[i]? := fun i => hr.get_of_le hchanges₂
  have hlo := h.changes.size_le
  have hnew : w₂.Holds d w.objects.size w₁.objects.size e tree.element :=
    (hholds.lower hmid).frame fun i hi => hsame i (Nat.le_trans hlo hi)
  have hlt : w₀.objects.size < w₂.objects.size :=
    Nat.lt_of_lt_of_le (Nat.lt_of_le_of_lt hlo hnew.lt) hchanges₂.size_le
  refine ⟨w₂, ?_, hlt, ?_, h.changes.trans (hchanges₁.trans hchanges₂), es ++ [e], ?_, ?_⟩
  · rw [runIn_appendNode h.hasLedger, runIn_bind_ok hmake]
    simpa using happend
  · simpa using hd₂
  · simpa using hl₂
  · have hold := hall.frame fun i hi hhi => hsame i hi (Nat.lt_of_lt_of_le hhi hchanges₁.size_le)
    exact (hold.append hnew).mono hchanges₂.size_le

/-- A node that is not complete gains nothing: the calls before its first stray are recorded. -/
theorem Gains.append_stray (h : w₀.Gains d l ledger kids w calls gained)
    (hgrown : w = w₀ ∨ w₀.objects.size < w.objects.size)
    (hr : w₀.Ready d p l ledger kids name) (ho : w₀.Offers (w₀.hideWritten l ledger) v sk)
    {t : Term} {rest : List Term} (ht : sk.strays = t :: rest) :
    ∃ seen w', (appendNode (.ref d) (.ref p) v).runIn w = (.error (Html.invalidChild seen), w') ∧
      w₀.Gains d l ledger kids w' (calls ++ sk.calls) gained ∧ seen.toValue = t.toValue ∧
      (w₀.Avoids (ledger.Writes d l) t.toValue → seen = t) := by
  obtain ⟨sk', ho', hmap⟩ := h.offers hgrown hr ho
  obtain ⟨t', rest', ht', hvalue⟩ := exists_strays_of_map hmap ht
  have hlisting : (ledger.after calls).listing = ledger.listing := Ledger.listing_after
  rw [← hlisting] at ho'
  obtain ⟨seen, w', left, hfail, hR, hseen, hsame⟩ :=
    (ho'.materializes h.hasLedger).refuses t' rest' ht'
  have hcalls : sk'.calls = sk.calls := by
    rw [← Sketch.calls_map Term.toValue, hmap, Sketch.calls_map]
  rw [hcalls] at hR
  refine ⟨seen, w', ?_, h.progress hr hR, hseen.trans hvalue, fun havoids => ?_⟩
  · rw [runIn_appendNode h.hasLedger]
    exact runIn_bind_error hfail
  · have hlater := havoids.of_changes h.changes
    have hnow : seen = t' := hsame (.inr (by
      rw [hvalue, Ledger.opens_after]
      exact hlater.mono fun _ => .inl))
    have hbefore := ((Gains.start hr).draws hr ho.objects).1.stray_eq_read ho.read
      (ht ▸ List.mem_cons_self) havoids.ends
    have hafter := (h.draws hr (hmap ▸ ho.objects)).1.stray_eq_read ho'.read
      (ht' ▸ List.mem_cons_self) (hvalue ▸ hlater.ends)
    rw [hnow, hafter, hvalue, havoids.read_eq h.changes, ← hbefore]

/-- Nodes are appended one after the other, up to the first that is not complete. -/
theorem Gains.append_all (h : w₀.Gains d l ledger kids w calls gained)
    (hgrown : w = w₀ ∨ w₀.objects.size < w.objects.size)
    (hr : w₀.Ready d p l ledger kids name) {vs : List Value} {sks : List (Sketch Term)}
    (hall : List.Forall₂ (w₀.Offers (w₀.hideWritten l ledger)) vs sks) :
    ∃ w', w₀.Gains d l ledger kids w' (calls ++ Sketch.callsBelow (.bare name false) sks)
        (gained ++ Tree.elementsOf (Sketch.treesBefore sks)) ∧
      (Sketch.straysOf sks = [] →
        ∃ us, (vs.mapM (appendNode (.ref d) (.ref p))).runIn w = (.ok us, w')) ∧
      ∀ t rest, Sketch.straysOf sks = t :: rest → ∃ seen,
        (vs.mapM (appendNode (.ref d) (.ref p))).runIn w = (.error (Html.invalidChild seen), w') ∧
          seen.toValue = t.toValue ∧ (w₀.Avoids (ledger.Writes d l) t.toValue → seen = t) := by
  induction hall generalizing w calls gained with
  | nil =>
    refine ⟨w, ?_, fun _ => ⟨[], rfl⟩, fun t rest ht => nomatch ht⟩
    simpa [Sketch.callsBelow, Sketch.treesBefore, Tree.elementsOf] using h
  | @cons v sk vs sks ho _ ih =>
    rw [List.mapM_cons, Sketch.callsBelow, Sketch.treesBefore, Sketch.straysOf]
    cases htree : sk.tree? with
    | some tree =>
      obtain ⟨w₁, hrun, hlt, h₁⟩ := h.append_tree hgrown hr ho htree
      obtain ⟨w', h', hcomplete, hrefuse⟩ := ih h₁ (.inr hlt)
      rw [Sketch.strays_of_tree? htree, List.nil_append]
      refine ⟨w', ?_, fun hnil => ?_, fun t rest ht => ?_⟩
      · simpa [Tree.elementsOf, Head.appendCall, Head.bare] using h'
      · obtain ⟨us, hus⟩ := hcomplete hnil
        refine ⟨() :: us, ?_⟩
        rw [runIn_bind_ok hrun, runIn_bind_ok hus]
        rfl
      · obtain ⟨seen, hfail, hseen⟩ := hrefuse t rest ht
        refine ⟨seen, ?_, hseen⟩
        rw [runIn_bind_ok hrun]
        exact runIn_bind_error hfail
    | none =>
      obtain ⟨t, rest, ht⟩ := List.exists_cons_of_ne_nil (Sketch.tree?_eq_none_iff.mp htree)
      obtain ⟨seen, w', hfail, h', hseen⟩ := h.append_stray hgrown hr ho ht
      refine ⟨w', by simpa [Tree.elementsOf] using h', fun hnil => ?_, fun u rest' hu => ?_⟩
      · rw [ht] at hnil
        cases hnil
      · rw [ht, List.cons_append, List.cons.injEq] at hu
        obtain ⟨rfl, -⟩ := hu
        exact ⟨seen, runIn_bind_error hfail, hseen⟩

/-! ## Writing the same nodes -/

theorem Offers.runIn_render {hidden : World} (ho : w.Offers hidden v sk) :
    (render v).runIn w = (Html.renderChild (w.read v), w) := by
  obtain ⟨id, n, hread⟩ := ho.exists_read
  rw [render, runIn_bind_ok (runIn_read v w), hread]
  exact runIn_ofExcept _ w

theorem Offers.render_tree {hidden : World} (ho : w.Offers hidden v sk) (h : sk.strays = []) :
    ∃ s, (render v).runIn w = (.ok s, w) := by
  obtain ⟨tree, htree⟩ := Sketch.exists_tree?_of_strays h
  rw [ho.runIn_render, renderChild_of_shows (ho.read.shows htree)]
  exact ⟨_, rfl⟩

theorem Offers.render_stray {hidden : World} {t : Term} {rest : List Term}
    (ho : w.Offers hidden v sk) (h : sk.strays = t :: rest) :
    (render v).runIn w = (.error (Html.invalidChild t), w) := by
  rw [ho.runIn_render, Html.renderChild_of_draws ho.read h]

theorem render_all {hidden : World} {vs : List Value} {sks : List (Sketch Term)}
    (hall : List.Forall₂ (w.Offers hidden) vs sks) :
    (Sketch.straysOf sks = [] → ∃ ss, (vs.mapM render).runIn w = (.ok ss, w)) ∧
      ∀ t rest, Sketch.straysOf sks = t :: rest →
        (vs.mapM render).runIn w = (.error (Html.invalidChild t), w) := by
  induction hall with
  | nil => exact ⟨fun _ => ⟨[], rfl⟩, fun t rest ht => absurd ht.symm (List.cons_ne_nil t rest)⟩
  | @cons v sk vs sks ho _ ih =>
    rw [List.mapM_cons, Sketch.straysOf]
    cases hstrays : sk.strays with
    | nil =>
      obtain ⟨s, hs⟩ := ho.render_tree hstrays
      rw [runIn_bind_ok hs, List.nil_append]
      refine ⟨fun hnil => ?_, fun t rest ht => runIn_bind_error (ih.2 t rest ht)⟩
      obtain ⟨ss, hss⟩ := ih.1 hnil
      rw [runIn_bind_ok hss]
      exact ⟨s :: ss, rfl⟩
    | cons t rest =>
      refine ⟨fun hnil => absurd hnil (List.cons_ne_nil t _), fun u rest' hu => ?_⟩
      rw [List.cons_append, List.cons.injEq] at hu
      obtain ⟨rfl, -⟩ := hu
      exact runIn_bind_error (ho.render_stray hstrays)

/-- The nodes in a list are written one after the other. -/
theorem runIn_renderList {k : Nat} {vs : List Value} {r : Except Fault (List String)}
    (hk : w.objects[k]? = some (.list vs)) (hrun : (vs.mapM render).runIn w = (r, w)) :
    (renderList (.ref k)).runIn w = (r.map String.join, w) := by
  have hanswers : (answersOf render (.ref k)).runIn w = (r, w) := by
    rw [runIn_answersOf_list hk fun ss w' hss => ?_, hrun]
    obtain rfl := congrArg Prod.snd (hrun.symm.trans hss)
    exact hk
  cases r with
  | ok ss =>
    rw [renderList, runIn_bind_ok hanswers]
    rfl
  | error f => exact runIn_bind_error hanswers

/-! ## Both ways of output -/

/--
Writing and making something come to the same: both are completed if there is no stray, and
otherwise both are refused for the first one, by a type error if that one can be shown.  What is
made meanwhile is there either way.  Where the refused child looks the same all the time, so do the
two faults.
-/
structure RefusesAlike {α : Type} (w : World) (write : Operation String) (make : Operation α)
    (strays : List Term) (same : Term → Prop) (made : World → Prop) : Prop where
  completes : strays = [] → (∃ s, write.runIn w = (.ok s, w)) ∧
    ∃ a w', make.runIn w = (.ok a, w') ∧ made w'
  refuses : ∀ t rest, strays = t :: rest →
    write.runIn w = (.error (Html.invalidChild t), w) ∧
      ∃ seen w', make.runIn w = (.error (Html.invalidChild seen), w') ∧ made w' ∧
        seen.toValue = t.toValue ∧ (same t → seen = t)
  kind : ∀ t ∈ strays, ∀ shown, t.quoted = .ok shown → (Html.invalidChild t).errorClass = .type

end World

/-- A child that can be shown is refused by a type error. -/
theorem Html.errorClass_invalidChild {t : Term} {shown : String} (h : t.quoted = .ok shown) :
    (invalidChild t).errorClass = .type := by
  rw [invalidChild, h]
  rfl

/--
A node whose fields are well-typed is materialised, by a document in memory or a recording one,
exactly if it can be written, and otherwise both are refused for the first child in document order
that is neither a text nor a node.  The ledger of the document has then gained the calls before
that child.

Nodes in a list are appended to a parent exactly if they can be written one after the other, and
otherwise both are refused for the first such child in them.  The parent has then gained the
elements of the nodes before the one that is refused, and nothing else.

No list that is written to may be one of those that the nodes are made of.
-/
theorem output_refuses_alike {w : World} {d : Nat} {ledger : Ledger}
    (hd : w.HasLedger d ledger) :
    (∀ {v : Value} {sk : Sketch Term}, w.Offers (w.hide ledger.listing) v sk →
      w.RefusesAlike (render v) (materialize v (.ref d)) sk.strays
        (fun t => ledger.listing = none ∨ w.Avoids (ledger.Opens d) t.toValue)
        (fun w' => w'.HasLedger d (ledger.after sk.calls))) ∧
    ∀ {p l k : Nat} {kids vs : List Value} {name : String} {sks : List (Sketch Term)},
      w.Ready d p l ledger kids name →
      (w.hideWritten l ledger).objects[k]? = some (.list vs) →
      List.Forall₂ (w.Offers (w.hideWritten l ledger)) vs sks →
      w.RefusesAlike (renderList (.ref k)) (appendList (.ref p) (.ref k) (.ref d))
        (Sketch.straysOf sks) (fun t => w.Avoids (ledger.Writes d l) t.toValue)
        (fun w' => w.Gains d l ledger kids w' (Sketch.callsBelow (.bare name false) sks)
          (Tree.elementsOf (Sketch.treesBefore sks))) := by
  refine ⟨fun {v sk} ho => ⟨fun hnil => ⟨ho.render_tree hnil, ?_⟩, fun t rest ht =>
    ⟨ho.render_stray ht, ?_⟩, fun _ _ _ => Html.errorClass_invalidChild⟩,
    fun {p l k kids vs name sks} hr hk hall => ?_⟩
  · obtain ⟨tree, htree⟩ := Sketch.exists_tree?_of_strays hnil
    obtain ⟨e, w', hrun, hR⟩ := (ho.materializes hd).makes tree htree
    exact ⟨e, w', hrun, hR.hasLedger hd⟩
  · obtain ⟨seen, w', left, hrun, hR, hseen⟩ := (ho.materializes hd).refuses t rest ht
    exact ⟨seen, w', hrun, hR.hasLedger hd, hseen⟩
  · have hlist : w.objects[k]? = some (.list vs) :=
      (hideWritten_changes w d l ledger).spared hk fun hi => hr.not_inTrees hi hk trivial
    have hrender := render_all hall
    obtain ⟨w', hgains, hcomplete, hrefuse⟩ := (Gains.start hr).append_all (.inl rfl) hr hall
    rw [List.nil_append, List.nil_append] at hgains
    have hlist' : w'.objects[k]? = some (.list vs) :=
      hgains.changes.spared hlist fun hi => hr.not_inTrees hi hk trivial
    refine ⟨fun hnil => ⟨?_, ?_⟩, fun t rest ht => ⟨?_, ?_⟩, fun _ _ _ =>
      Html.errorClass_invalidChild⟩
    · obtain ⟨ss, hss⟩ := hrender.1 hnil
      exact ⟨_, runIn_renderList hlist hss⟩
    · obtain ⟨us, hus⟩ := hcomplete hnil
      exact ⟨(), w', runIn_eachItem_list hlist hus hlist', hgains⟩
    · exact runIn_renderList hlist (hrender.2 t rest ht)
    · obtain ⟨seen, hfail, hseen⟩ := hrefuse t rest ht
      exact ⟨seen, w', runIn_eachItem_error hlist hfail, hgains, hseen⟩

/--
A recording document whose list of calls was handed out, an element, and two nodes, of which the
second has a list for a child.
-/
def refusedWorld : World := .ofObjects #[
  .recordingDocument ⟨#[], some (.ref 1), .bool false, "", []⟩, .list [],
  .element ⟨.ref 0, .text "ul", .bool false, .text "", .text "", .ref 3, .ref 4, .ref 5, []⟩,
  .map [], .map [], .list [], .list [], .map [], .list [.text "a"],
  .node ⟨.text "p", .bool false, .none, .ref 6, .none, .ref 7, .ref 7, .none, .ref 8⟩,
  .list [.ref 9, .ref 12, .text "b"],
  .node ⟨.text "div", .bool false, .none, .ref 6, .none, .ref 7, .ref 7, .none, .ref 10⟩,
  .list [.bool true], .list [.ref 9, .ref 11]]

/-- The sketches of the two nodes of that world. -/
def refusedSketches : List (Sketch Term) :=
  let p := .node (.bare "p" false) [.text "a"]
  [p, .node (.bare "div" false) [p, .stray (.list 12 [.atom (.bool true)]), .text "b"]]

/-- What may be hidden of that world without hiding the two nodes. -/
theorem refusedWorld_offers {hidden : World}
    (h : ∀ i, 6 ≤ i → hidden.objects[i]? = refusedWorld.objects[i]?) :
    List.Forall₂ (refusedWorld.Offers hidden) [.ref 9, .ref 11] refusedSketches := by
  have hp : ∀ depth, (refusedWorld.unfold true (depth + 3) (.ref 9)).Draws
      (.node (.bare "p" false) [.text "a"]) := fun depth =>
    .node ⟨rfl, rfl, rfl, ⟨_, rfl⟩, rfl, ⟨_, [], rfl, .nil⟩, ⟨_, rfl⟩, rfl⟩ rfl
      (.cons (.text "a") .nil)
  have hfields : ∀ {name : String} {children : Value}, hidden.HasFields
      ⟨.text name, .bool false, .none, .ref 6, .none, .ref 7, .ref 7, .none, children⟩
      (.bare name false) := ⟨rfl, rfl, rfl, ⟨6, rfl, h 6 (by decide)⟩, rfl,
    ⟨[], ⟨7, rfl, h 7 (by decide)⟩, .nil⟩, ⟨7, rfl, h 7 (by decide)⟩, rfl⟩
  have hp' : hidden.Draws (.ref 9) (.node (.bare "p" false) [.text "a"]) :=
    .node (h 9 (by decide)) hfields ⟨8, rfl, h 8 (by decide)⟩ (.cons (.text "a") .nil)
  have hstray : hidden.Draws (.ref 12) (.stray (.ref 12)) :=
    .stray (.object (h 12 (by decide)) fun n hn => by cases hn)
  have hcallable : ∀ sk ∈ refusedSketches, sk.Hears refusedWorld.Callable := by
    simp [refusedSketches, Sketch.Hears, Sketch.heads, Sketch.headsOf, Head.Hears, Head.bare]
  refine .cons ⟨⟨_, _, rfl⟩, hp 12, hp', hcallable _ (by simp [refusedSketches])⟩
    (.cons ⟨⟨_, _, rfl⟩, ?_, ?_, hcallable _ (by simp [refusedSketches])⟩ .nil)
  · exact .node ⟨rfl, rfl, rfl, ⟨_, rfl⟩, rfl, ⟨_, [], rfl, .nil⟩, ⟨_, rfl⟩, rfl⟩ rfl
      (.cons (hp 10) (.cons (.stray (.object fun n hn => by cases hn)) (.cons (.text "b") .nil)))
  · exact .node (h 11 (by decide)) hfields ⟨10, rfl, h 10 (by decide)⟩
      (.cons hp' (.cons hstray (.cons (.text "b") .nil)))

theorem output_refuses_alike_list :
    refusedWorld.HasLedger 0 (.calls (some (.ref 1)) []) ∧
      (render (.ref 11)).runIn refusedWorld =
        (.error (.invalidChild "list" "[True]"), refusedWorld) ∧
      (∃ w', (materialize (.ref 11) (.ref 0)).runIn refusedWorld =
          (.error (.invalidChild "list" "[True]"), w') ∧
        w'.HasLedger 0 (.calls (some (.ref 1)) [[.text "create_element", .text "div"],
          [.text "create_element", .text "p"], [.text "create_text_node", .text "a"],
          [.text "append_child", .text "p", .text "#text"],
          [.text "append_child", .text "div", .text "p"]])) ∧
      (renderList (.ref 13)).runIn refusedWorld =
        (.error (.invalidChild "list" "[True]"), refusedWorld) ∧
      ∃ w', (appendList (.ref 2) (.ref 13) (.ref 0)).runIn refusedWorld =
          (.error (.invalidChild "list" "[True]"), w') ∧
        refusedWorld.Gains 0 5 (.calls (some (.ref 1)) []) [] w'
          (Sketch.callsBelow (.bare "ul" false) refusedSketches)
          [(Tree.node (.bare "p" false) [.text "a"]).element] := by
  have hd : refusedWorld.HasLedger 0 (.calls (some (.ref 1)) []) :=
    ⟨#[], .bool false, "", rfl, rfl⟩
  have hr : refusedWorld.Ready 0 2 5 (.calls (some (.ref 1)) []) [] "ul" :=
    ⟨hd, ⟨⟨_, rfl, rfl, rfl, rfl⟩⟩, rfl, by simp [Ledger.listing]⟩
  have hone : List.Forall₂ (refusedWorld.Offers (refusedWorld.hide (some (.ref 1))))
      [.ref 9, .ref 11] refusedSketches :=
    refusedWorld_offers fun i hi => get_replace_ne (by omega)
  have hall : List.Forall₂ (refusedWorld.Offers
      (refusedWorld.hideWritten 5 (.calls (some (.ref 1)) []))) [.ref 9, .ref 11]
      refusedSketches := refusedWorld_offers fun i hi =>
    (get_replace_ne (by omega)).trans (get_replace_ne (by omega))
  have havoids : ∀ opened, ¬ opened 12 → refusedWorld.Avoids opened (.ref 12) := by
    refine fun opened hopened => ⟨.ref rfl fun p hp => ?_, fun i hi => ?_⟩
    · obtain rfl := List.mem_singleton.mp hp
      exact .atom _
    · cases hi with
      | here => exact ⟨by decide, hopened⟩
      | through object part rest =>
        cases object
        obtain rfl := List.mem_singleton.mp part
        cases rest
  have hfault : Html.invalidChild (.list 12 [.atom (.bool true)]) =
      .invalidChild "list" "[True]" := rfl
  have hdiv := (output_refuses_alike hd).1 (List.forall₂_cons.mp (List.forall₂_cons.mp hone).2).1
  obtain ⟨hrender, seen, w', hrun, hrecords, -, hsame⟩ := hdiv.refuses _ [] rfl
  rw [hsame (.inr (havoids _ (by simp [Ledger.Opens]))), hfault] at hrun
  have hnodes : (refusedWorld.hideWritten 5 (.calls (some (.ref 1)) [])).objects[13]? =
      some (.list [.ref 9, .ref 11]) := rfl
  have hboth := (output_refuses_alike hd).2 hr hnodes hall
  obtain ⟨hrenderList, seen', w'', hrun', hgains, -, hsame'⟩ := hboth.refuses _ [] rfl
  rw [hsame' (havoids _ (by simp [Ledger.Writes, Ledger.Opens])), hfault] at hrun'
  exact ⟨hd, hfault ▸ hrender, ⟨w', hrun, hrecords⟩, hfault ▸ hrenderList, w'', hrun', hgains⟩

/--
A recording document whose list of calls was handed out, and three nodes: that list holds the
children of the first one and is a child of the second one, and a child of the third one cannot be
shown.
-/
def liveWorld : World := .ofObjects #[
  .recordingDocument ⟨#[], some (.ref 1), .bool false, "", []⟩, .list [], .list [], .map [],
  .node ⟨.text "div", .bool false, .none, .ref 2, .none, .ref 3, .ref 3, .none, .ref 1⟩,
  .list [.ref 1],
  .node ⟨.text "div", .bool false, .none, .ref 2, .none, .ref 3, .ref 3, .none, .ref 5⟩,
  .node ⟨.text "p", .bool false, .none, .ref 2, .none, .ref 3, .int 5, .none, .ref 2⟩,
  .list [.ref 7], .list [.ref 8],
  .node ⟨.text "div", .bool false, .none, .ref 2, .none, .ref 3, .ref 3, .none, .ref 9⟩]

/-- Where the list of the calls is part of what is materialised, the two ways of output differ. -/
theorem output_differs_live :
    ((render (.ref 4)).runIn liveWorld).1 = .ok "<div></div>" ∧
      ((materialize (.ref 4) (.ref 0)).runIn liveWorld).1 =
        .error (.invalidChild "tuple" "('create_element', 'div')") ∧
      ((render (.ref 6)).runIn liveWorld).1 = .error (.invalidChild "list" "[]") ∧
      ((materialize (.ref 6) (.ref 0)).runIn liveWorld).1 =
        .error (.invalidChild "list" "[('create_element', 'div')]") ∧
      ((render (.ref 10)).runIn liveWorld).1 = .error .missingMember := by
  decide +kernel

end Markup
