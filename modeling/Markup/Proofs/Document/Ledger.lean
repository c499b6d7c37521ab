import Markup.Proofs.Document.Memory
import Markup.Proofs.Document.Refused
import Markup.Proofs.Document.Replayed
import Markup.Proofs.Document.Strays

/-!
# Materialising on either kind of document

A `Ledger` tells the two kinds of documents apart: one in memory keeps nothing of its calls, and a
recording one keeps them all.  What materialising a sketch does is said for both at once
(`World.materializes`, `World.refuses`): the ledger gains the calls up to the first stray, and the
refusal shows that stray.
-/

namespace Markup

open World Operation

/-- What a document keeps of its calls: nothing, or all of them, perhaps in a list handed out. -/
inductive Ledger where
  | blank
  | calls (listing : Option Value) (entries : List (List Value))

namespace Ledger

/-- The list that was handed out. -/
def listing : Ledger → Option Value
  | blank => none
  | calls listing _ => listing

/-- The ledger after more calls. -/
def after : Ledger → List DocumentCall → Ledger
  | blank, _ => blank
  | calls listing entries, more => calls listing (entries ++ more.map DocumentCall.entry)

/-- The host that a document with such a ledger is. -/
def host (d : Nat) : Ledger → Host Operation Value
  | blank => memoryHost d
  | calls .. => recordingHost d

/-- The objects that a document writes calls to. -/
def Opens (d : Nat) : Ledger → Nat → Prop
  | blank, _ => False
  | calls listing _, i => i = d ∨ listing = some (.ref i)

variable {ledger : Ledger} {d : Nat} {more : List DocumentCall}

@[simp] theorem listing_after : (ledger.after more).listing = ledger.listing := by
  cases ledger <;> rfl

@[simp] theorem host_after : (ledger.after more).host d = ledger.host d := by
  cases ledger <;> rfl

@[simp] theorem opens_after : (ledger.after more).Opens d = ledger.Opens d := by
  cases ledger <;> rfl

@[simp] theorem after_nil : ledger.after [] = ledger := by
  cases ledger <;> simp [after]

@[simp] theorem after_after (later : List DocumentCall) :
    (ledger.after more).after later = ledger.after (more ++ later) := by
  cases ledger <;> simp [after]

end Ledger

namespace World

/-- A document as it is made, with its ledger. -/
def HasLedger (w : World) (d : Nat) : Ledger → Prop
  | .blank => w.objects[d]? = some (.memoryDocument [])
  | .calls listing entries => w.Records d listing entries

/-- How a world stands to the one in which a document began, whichever kind it is. -/
def Progress (w₀ : World) (d : Nat) :
    Ledger → World → List DocumentCall → List (Value × ElementTree) → Prop
  | .blank => fun w _ stack =>
    Builds w₀.objects.size w₀ w ∧ w.HoldsStack d w₀.objects.size w.objects.size stack
  | .calls listing entries => Underway w₀ d listing entries

variable {w₀ w w' : World} {d : Nat} {ledger : Ledger} {calls : List DocumentCall}
  {stack : List (Value × ElementTree)} {v : Value} {sk : Sketch Term}

theorem Progress.start (h : w.HasLedger d ledger) : Progress w d ledger w [] [] := by
  cases ledger with
  | blank => exact ⟨⟨Nat.le_refl _, fun _ _ => rfl, fun _ _ h => h⟩, Nat.le_refl _⟩
  | calls listing entries => exact Underway.start h

theorem Progress.hasLedger (h : Progress w₀ d ledger w calls stack)
    (hd : w₀.HasLedger d ledger) : w.HasLedger d (ledger.after calls) := by
  cases ledger with
  | blank => exact (h.1.kept d (lt_size hd)).trans hd
  | calls listing entries => exact h.records

theorem Progress.holds (h : Progress w₀ d ledger w calls stack) :
    w.HoldsStack d w₀.objects.size w.objects.size stack := by
  cases ledger with
  | blank => exact h.2
  | calls listing entries => exact h.holds

/-- Only what calls are written to is changed, and new objects are made. -/
theorem Progress.changes (h : Progress w₀ d ledger w calls stack) :
    w₀.ChangesOnly (ledger.Opens d) w := by
  cases ledger with
  | blank => exact ⟨h.1.size_le, fun ho _ => (h.1.kept _ (lt_size ho)).trans ho⟩
  | calls listing entries =>
    refine ⟨h.spares.size_le, fun ho hi => (h.spares.kept _ (lt_size ho) ?_ ?_).trans ho⟩
    · exact fun heq => hi (.inl heq)
    · exact fun heq => hi (.inr heq)

/-- Calls are written to the document itself, and to a list. -/
theorem HasLedger.cases_opens (hd : w.HasLedger d ledger) {i : Nat} (hi : ledger.Opens d i) :
    (∃ r, w.objects[i]? = some (.recordingDocument r)) ∨
      ∃ items, w.objects[i]? = some (.list items) := by
  cases ledger with
  | blank => exact hi.elim
  | calls listing entries =>
    obtain ⟨own, _, _, hdoc, hcalls⟩ := hd
    rcases hi with rfl | rfl
    · exact .inl ⟨_, hdoc⟩
    · obtain ⟨items, hitems, -⟩ := exists_list_of_callsOf? hcalls
      exact .inr ⟨items, hitems⟩

/-- What is neither a recording document nor a list is not written to. -/
theorem HasLedger.not_opens_of (hd : w.HasLedger d ledger) {i : Nat} {o : Object Value}
    (ho : w.objects[i]? = some o) (hdocument : ∀ r, o ≠ .recordingDocument r)
    (hlist : ∀ items, o ≠ .list items) : ¬ ledger.Opens d i := by
  intro hi
  obtain ⟨r, hr⟩ | ⟨items, hitems⟩ := hd.cases_opens hi
  · exact hdocument r (Option.some.inj (ho.symm.trans hr))
  · exact hlist items (Option.some.inj (ho.symm.trans hitems))

theorem HasLedger.ne_node (hd : w.HasLedger d ledger) {i : Nat} (hi : ledger.Opens d i)
    (n : Node Value) : w.objects[i]? ≠ some (.node n) :=
  fun hn => hd.not_opens_of hn (by simp) (by simp) hi

theorem HasLedger.opens_lt (hd : w.HasLedger d ledger) {i : Nat} (hi : ledger.Opens d i) :
    i < w.objects.size := by
  obtain ⟨_, h⟩ | ⟨_, h⟩ := hd.cases_opens hi
  all_goals exact lt_size h

/-- Where the list that was handed out is hidden, no tree is made of what calls are written to. -/
theorem HasLedger.not_inTrees (hd : w.HasLedger d ledger) {i : Nat} (hi : ledger.Opens d i)
    {o : Object Value} (ho : (w.hide ledger.listing).objects[i]? = some o) : ¬ o.InTrees := by
  cases ledger with
  | blank => exact hi.elim
  | calls listing entries =>
    obtain ⟨own, _, _, hdoc, -⟩ := hd
    by_cases hnan : o = .notANumber
    · rw [hnan]
      exact id
    · obtain ⟨hw, hne⟩ := get_of_hide ho hnan
      rcases hi with rfl | rfl
      · obtain rfl := Option.some.inj (hdoc.symm.trans hw)
        exact id
      · exact absurd rfl hne

theorem hide_changes (w : World) (d : Nat) (ledger : Ledger) :
    (w.hide ledger.listing).ChangesOnly (ledger.Opens d) w where
  size_le := by simp
  spared {i o} ho hi := by
    rcases hlisting : ledger.listing with _ | _ | id
    · rwa [hlisting] at ho
    · rwa [hlisting] at ho
    · rw [hlisting, hide] at ho
      refine (get_replace_ne ?_).symm.trans ho
      rintro rfl
      cases ledger with
      | blank => cases hlisting
      | calls listing entries => exact hi (.inr hlisting)

theorem changes_hide (w : World) (d : Nat) (ledger : Ledger) :
    w.ChangesOnly (ledger.Opens d) (w.hide ledger.listing) := by
  rcases hlisting : ledger.listing with _ | _ | id
  · exact .refl _ w
  · exact .refl _ w
  · refine changesOnly_replace ?_
    cases ledger with
    | blank => cases hlisting
    | calls listing entries => exact .inr hlisting

/-- What is drawn where the list that was handed out is hidden is drawn where it is not. -/
theorem HasLedger.draws_of_hide {sk : Sketch Value} (hd : w.HasLedger d ledger)
    (s : (w.hide ledger.listing).Draws v sk) : w.Draws v sk :=
  s.of_changes (hide_changes w d ledger) (fun _ _ hi ho => hd.not_inTrees hi ho)
    fun _ n hi => hd.ne_node hi n

end World

/-- Either kind of document does what is asked of it. -/
theorem Ledger.follows {w₀ : World} {d : Nat} {ledger : Ledger} (hd : w₀.HasLedger d ledger) :
    (ledger.host d).Follows (Progress w₀ d ledger) w₀.Callable := by
  cases ledger with
  | blank => exact (memoryHost_follows hd).mono fun _ _ => trivial
  | calls listing entries => exact recordingHost_follows hd

namespace World

variable {w : World} {d : Nat} {ledger : Ledger} {v : Value}

theorem runIn_hostOf_ledger (hd : w.HasLedger d ledger) :
    (hostOf (.ref d)).runIn w = (.ok (ledger.host d), w) := by
  cases ledger with
  | blank =>
    rw [hostOf, runIn_bind_ok (runIn_objectOf hd)]
    rfl
  | calls listing entries => exact runIn_hostOf hd

theorem runIn_find_ledger (hd : w.HasLedger d ledger) :
    (find (.ref d) "append_child").runIn w = (.ok .skill, w) := by
  cases ledger with
  | blank => exact runIn_find hd rfl
  | calls listing entries =>
    obtain ⟨_, _, _, hdoc, -⟩ := hd
    exact runIn_find hdoc rfl

/-- A document whose calls nobody else holds reads a node at once. -/
theorem runIn_materialize_ledger {id : Nat} {n : Node Term} (hd : w.HasLedger d ledger)
    (hclosed : ledger.listing = none) (hread : w.read v = .node id n) :
    (materialize v (.ref d)).runIn w = ((ledger.host d).materializeNode n).runIn w := by
  cases ledger with
  | blank => exact runIn_materialize_node hd hread
  | calls listing entries =>
    cases hclosed
    exact runIn_materialize hd hread

/--
A node draws a sketch, also where something is hidden, and its listeners can be called.
-/
structure Offers (w hidden : World) (v : Value) (sk : Sketch Term) : Prop where
  isNode : ∃ h children, sk = .node h children
  read : (w.read v).Draws sk
  objects : hidden.Draws v (sk.map Term.toValue)
  callable : sk.Hears w.Callable

/--
What becomes of a sketch that a document materialises: the element of its tree, or a refusal that
shows the first stray, after the calls before it.
-/
structure Materializes (w : World) (d : Nat) (ledger : Ledger) (v : Value) (sk : Sketch Term) :
    Prop where
  makes : ∀ tree, sk.tree? = some tree → ∃ e w', (materialize v (.ref d)).runIn w = (.ok e, w') ∧
    Progress w d ledger w' sk.calls [(e, tree.element)]
  refuses : ∀ t rest, sk.strays = t :: rest → ∃ seen w' left,
    (materialize v (.ref d)).runIn w = (.error (Html.invalidChild seen), w') ∧
      Progress w d ledger w' sk.calls left ∧ seen.toValue = t.toValue ∧
      (ledger.listing = none ∨ w.Avoids (ledger.Opens d) t.toValue → seen = t)

theorem Offers.exists_read {hidden : World} {sk : Sketch Term} (h : w.Offers hidden v sk) :
    ∃ id n, w.read v = .node id n := by
  obtain ⟨_, _, rfl⟩ := h.isNode
  obtain ⟨id, n, _, _, hread, -, -, -⟩ := h.read.exists_node
  exact ⟨id, n, hread⟩

/-- A node is materialised as far as its sketch is a tree, where it is read at once. -/
theorem materializes_closed {h : Head} {children : List (Sketch Term)} (hd : w.HasLedger d ledger)
    (hclosed : ledger.listing = none) (hv : (w.read v).Draws (.node h children))
    (hcallable : (Sketch.node h children).Hears w.Callable) :
    w.Materializes d ledger v (.node h children) := by
  obtain ⟨id, n, _, _, hread, -, -, -⟩ := hv.exists_node
  have hrun := runIn_materialize_ledger hd hclosed hread
  have hattempts := (Ledger.follows hd).attempts hv hcallable
  rw [hread] at hattempts
  refine ⟨fun tree ht => ?_, fun t rest ht => ?_⟩
  · obtain ⟨e, w', hmake, hR⟩ := hattempts.makes tree ht (Progress.start hd)
    rw [← Sketch.calls_of_tree? ht] at hR
    exact ⟨e, w', hrun.trans hmake, by simpa using hR⟩
  · obtain ⟨w', left, hfail, hR⟩ := hattempts.stops t rest ht (Progress.start hd)
    exact ⟨t, w', left, hrun.trans hfail, by simpa using hR, rfl, fun _ => rfl⟩

/-- A node is materialised as far as its sketch is a tree, where it is read field by field. -/
theorem Offers.materializes_open {sk : Sketch Term} {listing : Value} {entries : List (List Value)}
    (hd : w.HasLedger d (.calls (some listing) entries))
    (h : w.Offers (w.hide (some listing)) v sk) :
    w.Materializes d (.calls (some listing) entries) v sk := by
  obtain ⟨id, n, hread⟩ := h.exists_read
  have hdepth : (sk.map Term.toValue).height ≤ w.depthBound := by
    have hle := height_le_of_draws h.read
    rw [Sketch.height_map]
    omega
  have hhears : (sk.map Term.toValue).Hears w.Callable := by
    intro m hm
    rw [Sketch.heads_map] at hm
    exact h.callable m hm
  have hstrays : ∀ {w' calls stack}, Progress w d (.calls (some listing) entries) w' calls stack →
      ∀ u, (w.hide (some listing)).Stray u → w'.Stray u := fun hR u hu =>
    hu.of_changes ((hide_changes w d (.calls (some listing) entries)).trans (Progress.changes hR))
      fun _ n hi => (Progress.hasLedger hR hd).ne_node (by simpa using hi) n
  have hattempts := (Ledger.follows hd).attemptsStepwise (reads_underway hd) hstrays h.objects
    hhears hdepth
  have hrun : (materializeChildStepwise (.ref d) (recordingHost d) w.depthBound v).runIn w =
      (materialize v (.ref d)).runIn w := by
    rw [runIn_materialize hd hread, materializeChildStepwise, runIn_bind_ok (runIn_read v w),
      hread]
  refine ⟨fun tree ht => ?_, fun t rest ht => ?_⟩
  · obtain ⟨e, w', hmake, hR⟩ := hattempts.makes tree (by rwa [Sketch.tree?_map])
      (Progress.start hd)
    rw [← Sketch.calls_of_tree? ht] at hR
    exact ⟨e, w', hrun.symm.trans hmake, by simpa using hR⟩
  · obtain ⟨w', left, hfail, hR⟩ := hattempts.stops t.toValue (rest.map Term.toValue)
      (by rw [Sketch.strays_map, ht, List.map_cons]) (Progress.start hd)
    rw [Sketch.calls_map] at hR
    refine ⟨w'.read t.toValue, w', left, hrun.symm.trans hfail, by simpa using hR,
      toValue_read _ _, fun havoids => ?_⟩
    obtain hnone | havoids := havoids
    · cases hnone
    · have hnow := (hd.draws_of_hide h.objects).stray_eq_read h.read (ht ▸ List.mem_cons_self)
        havoids.ends
      rw [havoids.read_eq (Progress.changes hR), ← hnow]

/-- A node is materialised as far as its sketch is a tree, on any document. -/
theorem Offers.materializes {sk : Sketch Term} (hd : w.HasLedger d ledger)
    (h : w.Offers (w.hide ledger.listing) v sk) : w.Materializes d ledger v sk := by
  cases hlisting : ledger.listing with
  | none =>
    obtain ⟨_, _, rfl⟩ := h.isNode
    exact materializes_closed hd hlisting h.read h.callable
  | some listing =>
    cases ledger with
    | blank => cases hlisting
    | calls _ entries =>
      cases hlisting
      exact h.materializes_open hd

end World

end Markup
