import Markup.Proofs.Document.Recorded
import Markup.Proofs.Document.Stepwise

/-!
# The recorded calls tell the whole story

Materialising a tree with a recording document adds to its calls those of the tree, and these calls,
carried out on a stack, make exactly the element that is returned (`materialize_replays`).

A document whose list of calls was handed out goes on adding to that list.  The tree is then read
field by field, and it must not hold that list itself, which is no list of texts, listeners or
children: it is a tree in the world in which the list is hidden.
-/

namespace Markup

namespace World

/-- The world in which the list that is kept of the calls is hidden. -/
def hide (w : World) : Option Value → World
  | some (.ref id) => w.replace id .notANumber
  | _ => w

variable {w w' : World} {d : Nat} {listing : Option Value} {earlier : List (List Value)}

@[simp] theorem size_hide : (w.hide listing).objects.size = w.objects.size := by
  rcases listing with _ | _ | id <;> simp [hide]

/-- What is not hidden is what it is, and is not the list. -/
theorem get_of_hide {i : Nat} {o : Object Value} (h : (w.hide listing).objects[i]? = some o)
    (ho : o ≠ .notANumber) : w.objects[i]? = some o ∧ listing ≠ some (.ref i) := by
  rcases listing with _ | _ | id
  · exact ⟨h, by simp⟩
  · exact ⟨h, by simp⟩
  · by_cases hi : i = id
    · subst hi
      have hlt := lt_size h
      rw [size_hide] at hlt
      rw [hide, get_replace_self hlt] at h
      exact absurd (Option.some.inj h).symm ho
    · rw [hide, get_replace_ne hi] at h
      exact ⟨h, by simpa using fun heq => hi heq.symm⟩

/-- A tree without the list of the calls stays what it is while calls are recorded. -/
theorem Spares.keeps (h : Spares d listing w w') (hd : w.Records d listing earlier) :
    (w.hide listing).Keeps w' := by
  have hget : ∀ (i : Nat) (o : Object Value), (w.hide listing).objects[i]? = some o →
      o ≠ .notANumber → (∀ r, o ≠ .recordingDocument r) → w'.objects[i]? = some o := by
    intro i o hi ho hdocument
    obtain ⟨hw, hlist⟩ := get_of_hide hi ho
    obtain ⟨own, tracing, trace, hdoc, -⟩ := hd
    refine (h.kept i (lt_size hw) ?_ hlist).trans hw
    rintro rfl
    exact hdocument _ (Option.some.inj (hw.symm.trans hdoc))
  exact ⟨fun i _ hi => hget i _ hi (by simp) (by simp),
    fun i _ hi => hget i _ hi (by simp) (by simp), fun i _ hi => hget i _ hi (by simp) (by simp)⟩

theorem reads_underway (hd : w.Records d listing earlier) :
    Reads (w.hide listing) (.ref d) (Underway w d listing earlier) where
  keeps h := h.spares.keeps hd
  finds h := by
    obtain ⟨_, _, _, hdoc, -⟩ := h.records
    exact ⟨.skill, Operation.runIn_find hdoc rfl⟩
  isElement h := by
    obtain ⟨_, htop, -⟩ := h.holds
    obtain ⟨c, _, _, rfl, -, hparts, -⟩ := htop
    exact ⟨c.element, _, Operation.runIn_objectOf hparts.element⟩

end World

open World Operation

/-- The host of a recording document as it was made. -/
theorem runIn_hostOf {w : World} {d : Nat} {listing : Option Value} {earlier : List (List Value)}
    (h : w.Records d listing earlier) :
    (hostOf (.ref d)).runIn w = (.ok (recordingHost d), w) := by
  obtain ⟨own, tracing, trace, hd, -⟩ := h
  rw [hostOf, runIn_bind_ok (runIn_objectOf hd)]
  rfl

theorem runIn_listsOpenly {w : World} {d : Nat} {listing : Option Value}
    {earlier : List (List Value)} (h : w.Records d listing earlier) :
    (listsOpenly (.ref d)).runIn w = (.ok listing.isSome, w) := by
  obtain ⟨own, tracing, trace, hd, -⟩ := h
  rw [listsOpenly, runIn_bind_ok (runIn_objectOf hd)]
  rfl

section Runs

variable {w : World} {d : Nat} {earlier : List (List Value)} {v : Value} {h : Head}
  {children : List Tree} {R : World → List DocumentCall → List (Value × ElementTree) → Prop}

/-- How a value that is a node is materialised depends on who holds the calls. -/
theorem runIn_materialize {listing : Option Value} {id : Nat} {n : Node Term}
    (hd : w.Records d listing earlier) (hread : w.read v = .node id n) :
    (materialize v (.ref d)).runIn w =
      match listing with
      | none => ((recordingHost d).materializeNode n).runIn w
      | some _ => (materializeStepwise (.ref d) (recordingHost d) w.depthBound v).runIn w := by
  show (materializeWith (.ref d) v).runIn w = _
  rw [materializeWith, runIn_bind_ok (runIn_hostOf hd), runIn_bind_ok (runIn_read v w),
    runIn_bind_ok (runIn_listsOpenly hd), hread]
  have hdepth : Operation.depthBound.runIn w = (.ok w.depthBound, w) := rfl
  cases listing with
  | none => rfl
  | some listing => exact runIn_bind_ok hdepth

/-- A document that keeps its calls to itself reads the tree at once. -/
theorem runIn_materialize_closed (F : (recordingHost d).Follows R w.Callable)
    (hd : w.Records d none earlier) (hv : (w.read v).Shows (.node h children))
    (hcallable : (Tree.node h children).Hears w.Callable) (hR : R w [] []) :
    ∃ e w', (materialize v (.ref d)).runIn w = (.ok e, w') ∧
      R w' (Tree.node h children).calls [(e, (Tree.node h children).element)] := by
  obtain ⟨e, w', hrun, hR'⟩ := F.materializeChild hv hcallable hR
  refine ⟨e, w', ?_, hR'⟩
  obtain ⟨id, n, _, _, hread, -, -, -⟩ := hv.exists_node
  rw [hread] at hrun
  exact (runIn_materialize hd hread).trans hrun

/-- A document whose list of calls was handed out reads the tree field by field. -/
theorem runIn_materialize_open {listing : Value} (F : (recordingHost d).Follows R w.Callable)
    (hreads : Reads (w.hide (some listing)) (.ref d) R)
    (hd : w.Records d (some listing) earlier)
    (hv : ((w.hide (some listing)).read v).Shows (.node h children))
    (hcallable : (Tree.node h children).Hears w.Callable) (hR : R w [] []) :
    ∃ e w', (materialize v (.ref d)).runIn w = (.ok e, w') ∧
      R w' (Tree.node h children).calls [(e, (Tree.node h children).element)] := by
  have hheight : (Tree.node h children).height ≤ w.depthBound := by
    have hle := height_le_of_unfold hv
    rwa [World.depthBound, size_hide] at hle
  have hshows := Shows.of_unfold hv
  obtain ⟨e, w', hrun, hR'⟩ := F.materializeChildStepwise hreads hshows hcallable hheight hR
  refine ⟨e, w', ?_, hR'⟩
  cases hshows with
  | node hobject _ _ _ =>
    have hread := read_ref ((hreads.keeps hR).node _ _ hobject)
    rw [materializeChildStepwise, runIn_bind_ok (runIn_read _ w), hread] at hrun
    exact (runIn_materialize hd hread).trans hrun

end Runs

/--
Materialising a tree with a recording document succeeds, whatever calls were recorded before and
whether or not their list was handed out.  The calls of the tree are added after them, the value
that is returned is its element, made of new objects only, and carrying the added calls out on an
empty stack never gets stuck and leaves that element alone, void flags aside.
-/
theorem materialize_replays {w : World} {d : Nat} {listing : Option Value}
    {earlier : List (List Value)} {v : Value} {h : Head} {children : List Tree}
    (hd : w.Records d listing earlier)
    (hv : ((w.hide listing).read v).Shows (.node h children))
    (hcallable : (Tree.node h children).Hears w.Callable) :
    ∃ e w', (materialize v (.ref d)).runIn w = (.ok e, w') ∧
      w'.Records d listing
        (earlier ++ (Tree.node h children).calls.map DocumentCall.entry) ∧
      w'.Holds d w.objects.size w'.objects.size e (Tree.node h children).element ∧
      Replay.run [] (Tree.node h children).calls =
        some [(Tree.node h children).element.unflagged] := by
  have F := recordingHost_follows hd
  have hstart := Underway.start hd
  have hrun : ∃ e w', (materialize v (.ref d)).runIn w = (.ok e, w') ∧
      Underway w d listing earlier w' (Tree.node h children).calls
        [(e, (Tree.node h children).element)] := by
    cases listing with
    | none => exact runIn_materialize_closed F hd hv hcallable hstart
    | some listing => exact runIn_materialize_open F (reads_underway hd) hd hv hcallable hstart
  obtain ⟨e, w', hmaterialize, hU⟩ := hrun
  obtain ⟨lo, hholds, hlo⟩ := hU.holds
  exact ⟨e, w', hmaterialize, hU.records, hholds.lower hlo, Replay.run_calls _ []⟩

/--
A recording document that traces and whose list of calls was handed out, and a node that has the
same child twice.
-/
def tracedWorld : World := .ofObjects #[
  .recordingDocument ⟨#[], some (.ref 1), .bool true, "", []⟩,
  .list [.ref 2], .tuple [.text "create_text_node", .text "before"],
  .listener (.text "f") none none [], .list [.ref 3], .map [(.text "click", .ref 4)],
  .list [.text "wide"], .map [(.text "hidden", .bool true)],
  .list [.ref 13, .text "and", .ref 13],
  .list [], .map [], .map [], .list [],
  .node ⟨.text "br", .bool true, .none, .ref 9, .none, .ref 10, .ref 11, .none, .ref 12⟩,
  .node ⟨.text "p", .bool false, .text "x", .ref 6, .none, .ref 5, .ref 7, .text "hear",
    .ref 8⟩]

/-- The tree of the last node of that world. -/
def tracedTree : Head × List Tree :=
  ({ Head.bare "p" false with
      id := some "x", classes := ["wide"], listeners := [("click", [.ref 3])]
      attrs := [("hidden", .flag true)], content := some "hear"
      listeners_nodup := by decide, attrs_nodup := by decide },
    [.node (.bare "br" true) [], .text "and", .node (.bare "br" true) []])

theorem materialize_replays_traced :
    tracedWorld.Records 0 (some (.ref 1)) [[.text "create_text_node", .text "before"]] ∧
      ∃ e w', (materialize (.ref 14) (.ref 0)).runIn tracedWorld = (.ok e, w') ∧
        w'.Records 0 (some (.ref 1)) ([[.text "create_text_node", .text "before"]] ++
          (Tree.node tracedTree.1 tracedTree.2).calls.map DocumentCall.entry) ∧
        w'.Holds 0 15 w'.objects.size e (Tree.node tracedTree.1 tracedTree.2).element ∧
        Replay.run [] (Tree.node tracedTree.1 tracedTree.2).calls =
          some [(Tree.node tracedTree.1 tracedTree.2).element.unflagged] := by
  have hd : tracedWorld.Records 0 (some (.ref 1)) [[.text "create_text_node", .text "before"]] :=
    ⟨#[], .bool true, "", rfl, rfl⟩
  have hbr : ((tracedWorld.hide (some (.ref 1))).unfold true 13 (.ref 13)).Shows
      (.node (.bare "br" true) []) :=
    .node ⟨rfl, rfl, rfl, ⟨_, rfl⟩, rfl, ⟨_, _, rfl, .nil⟩, ⟨_, rfl⟩, rfl⟩ rfl .nil
  have hv : ((tracedWorld.hide (some (.ref 1))).read (.ref 14)).Shows
      (.node tracedTree.1 tracedTree.2) := by
    refine .node ⟨rfl, rfl, rfl, ⟨_, rfl⟩, rfl, ⟨_, _, rfl, .cons ⟨rfl, _, _, rfl, rfl⟩ .nil⟩,
      ⟨_, rfl⟩, rfl⟩ rfl (.cons ?_ (.cons (.text _) (.cons ?_ .nil)))
    all_goals exact hbr
  have hcallable : (Tree.node tracedTree.1 tracedTree.2).Hears tracedWorld.Callable := by
    have hf : tracedWorld.Callable (.ref 3) := .listener rfl
    simpa [Tree.Hears, Head.Hears, tracedTree, Head.bare] using hf
  exact ⟨hd, materialize_replays hd hv hcallable⟩

end Markup
