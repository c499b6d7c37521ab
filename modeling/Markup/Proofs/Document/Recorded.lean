import Markup.Proofs.Document.Building
import Markup.Proofs.Document.Following

/-!
# Documents that record

`World.callsOf?` is what the calls of a recording document are in a world, whether the document
keeps them itself or adds them to a list that was handed out.  Recording a call adds it to them and
changes only the document and that list (`Operation.runIn_record`), and nothing that a document does
to its elements changes the calls (`World.Underway.build`).

So a recording document and its elements follow a relation of their own
(`recordingHost_follows`): the calls are those of the start with the new ones after them, the
elements on the stack are new, and all other old objects are as they were.
-/

namespace Markup

/-! ## The calls of a document -/

namespace World

/-- The items of a tuple. -/
def tuple? (w : World) : Value → Option (List Value)
  | .ref id =>
    match w.objects[id]? with
    | some (.tuple items) => some items
    | _ => none
  | .atom _ => none

/--
The calls of a recording, each as a tuple: those that the document keeps, or those in the list that
is kept of them.
-/
def callsOf? (w : World) (own : Array DocumentCall) :
    Option Value → Option (List (List Value))
  | none => some (own.toList.map DocumentCall.entry)
  | some (.ref id) =>
    match w.objects[id]? with
    | some (.list items) => items.mapM w.tuple?
    | _ => none
  | some (.atom _) => none

/--
A recording document as it is made, with or without a list that is kept of its calls, and with
these calls.
-/
def Records (w : World) (d : Nat) (listing : Option Value) (calls : List (List Value)) : Prop :=
  ∃ own tracing trace,
    w.objects[d]? = some (.recordingDocument ⟨own, listing, .atom tracing, trace, []⟩) ∧
      w.callsOf? own listing = some calls

/-- Something that can be called and has a name. -/
inductive Callable (w : World) : Value → Prop
  | errorClass (c : ErrorClass) : Callable w (.atom (.errorClass c))
  | listener {id : Nat} {name : Atom} {refusal : Option String} {kind : Option Nat}
      {extras : List (String × Value)}
      (h : w.objects[id]? = some (.listener (.atom name) refusal kind extras)) :
      Callable w (.ref id)
  | constructor {id : Nat} {name isVoid : Atom}
      (h : w.objects[id]? = some (.constructor ⟨.atom name, .atom isVoid⟩)) : Callable w (.ref id)

variable {w w' : World} {d : Nat} {v : Value}

/-- What can be called can also be shown. -/
theorem Callable.quoted (h : w.Callable v) : ∃ s, (w.read v).quoted = .ok s := by
  cases h with
  | errorClass c => exact ⟨_, rfl⟩
  | @listener _ name _ _ _ h =>
    refine ⟨"<fn " ++ name.display false ++ ">", ?_⟩
    rw [read, depthBound, unfold, unfoldWith, h]
    simp [Object.mapParts, Term.quoted, Term.display]
  | @constructor _ name isVoid h =>
    refine ⟨"ElementConstructor(" ++ name.display true ++ ", is_void=" ++ isVoid.display false ++
      ")", ?_⟩
    rw [read, depthBound, unfold, unfoldWith, h]
    simp [Object.mapParts, Constructor.map, Term.quoted, Term.display, Term.constructorText]

/-! ## What recording changes -/

/-- All objects but a document and the list that is kept of its calls stay as they are. -/
structure Spares (d : Nat) (listing : Option Value) (w w' : World) : Prop where
  size_le : w.objects.size ≤ w'.objects.size
  kept : ∀ i < w.objects.size, i ≠ d → listing ≠ some (.ref i) → w'.objects[i]? = w.objects[i]?

variable {listing : Option Value} {calls : List (List Value)} {own : Array DocumentCall}

theorem Spares.trans {w₁ w₂ w₃ : World} (h₁ : Spares d listing w₁ w₂)
    (h₂ : Spares d listing w₂ w₃) : Spares d listing w₁ w₃ where
  size_le := Nat.le_trans h₁.size_le h₂.size_le
  kept i hi hd hl :=
    (h₂.kept i (Nat.lt_of_lt_of_le hi h₁.size_le) hd hl).trans (h₁.kept i hi hd hl)

/-- Calls that are kept outside of the document are tuples in a list. -/
theorem exists_list_of_callsOf? {id : Nat} (h : w.callsOf? own (some (.ref id)) = some calls) :
    ∃ items, w.objects[id]? = some (.list items) ∧ items.mapM w.tuple? = some calls := by
  rw [callsOf?] at h
  split at h
  · exact ⟨_, ‹_›, h⟩
  · cases h

/-- An object that is neither a recording document nor a list is spared. -/
theorem Spares.get (h : Spares d listing w w') (hrecords : w.Records d listing calls) {i : Nat}
    {o : Object Value} (hi : w.objects[i]? = some o) (hdocument : ∀ r, o ≠ .recordingDocument r)
    (hlist : ∀ items, o ≠ .list items) : w'.objects[i]? = some o := by
  obtain ⟨own, tracing, trace, hd, hcalls⟩ := hrecords
  refine (h.kept i (lt_size hi) ?_ ?_).trans hi
  · rintro rfl
    exact hdocument _ (Option.some.inj (hi.symm.trans hd))
  · rintro rfl
    obtain ⟨items, hitems, -⟩ := exists_list_of_callsOf? hcalls
    exact hlist items (Option.some.inj (hi.symm.trans hitems))

theorem Spares.callable (h : Spares d listing w w') (hrecords : w.Records d listing calls)
    (hv : w.Callable v) : w'.Callable v := by
  cases hv with
  | errorClass c => exact .errorClass c
  | listener hv => exact .listener (h.get hrecords hv (by simp) (by simp))
  | constructor hv => exact .constructor (h.get hrecords hv (by simp) (by simp))

/-- The calls in a list are the same as long as tuples are. -/
theorem mapM_tuple_of (h : ∀ (i : Nat) (items : List Value), w.objects[i]? = some (.tuple items) →
      w'.objects[i]? = some (.tuple items)) {items : List Value}
    (hitems : items.mapM w.tuple? = some calls) : items.mapM w'.tuple? = some calls := by
  have htuple : ∀ {v t}, w.tuple? v = some t → w'.tuple? v = some t := by
    intro v t hv
    cases v with
    | atom a => cases hv
    | ref id =>
      rw [tuple?] at hv ⊢
      split at hv
      · rename_i us hus
        rw [h id us hus]
        exact hv
      · cases hv
  induction items generalizing calls with
  | nil => exact hitems
  | cons v items ih =>
    rw [List.mapM_cons] at hitems ⊢
    obtain ⟨t, ht, hrest⟩ := Option.bind_eq_some_iff.mp hitems
    obtain ⟨ts, hts, hcons⟩ := Option.bind_eq_some_iff.mp hrest
    rw [htuple ht, ih hts]
    exact hcons

/-- The calls stay what they are where the list that is kept of them does. -/
theorem callsOf?_of (h : w.callsOf? own listing = some calls)
    (hlist : ∀ (i : Nat) (items : List Value), listing = some (.ref i) →
      w.objects[i]? = some (.list items) → w'.objects[i]? = some (.list items))
    (htuples : ∀ (i : Nat) (items : List Value), w.objects[i]? = some (.tuple items) →
      w'.objects[i]? = some (.tuple items)) : w'.callsOf? own listing = some calls := by
  rcases listing with _ | _ | id
  · exact h
  · cases h
  · obtain ⟨items, hitems, hcalls⟩ := exists_list_of_callsOf? h
    rw [callsOf?, hlist id items rfl hitems]
    exact mapM_tuple_of htuples hcalls

end World

namespace Operation

open World

variable {w : World} {d : Nat} {listing : Option Value} {calls : List (List Value)}

/-- A text, or something that can be called and shown. -/
def Showable (w : World) (v : Value) : Prop := (∃ s, v = .text s) ∨ w.Callable v

/-- A call that the document keeps itself. -/
theorem runIn_listCall_own (h : w.Records d none calls) (c : DocumentCall) :
    ∃ w', (listCall d none c).runIn w = (.ok (), w') ∧
      w'.Records d none (calls ++ [c.entry]) ∧ Spares d none w w' := by
  obtain ⟨own, tracing, trace, hd, hcalls⟩ := h
  obtain rfl := Option.some.inj hcalls
  refine ⟨_, runIn_update' hd _, ⟨own.push c, tracing, trace, ?_, ?_⟩, ⟨by simp, ?_⟩⟩
  · exact get_replace_self (lt_size hd)
  · simp [callsOf?]
  · exact fun i _ hi _ => get_replace_ne hi

/-- A call that is added to a list which others hold. -/
theorem runIn_listCall_listed {id : Nat} (h : w.Records d (some (.ref id)) calls)
    (c : DocumentCall) :
    ∃ w', (listCall d (some (.ref id)) c).runIn w = (.ok (), w') ∧
      w'.Records d (some (.ref id)) (calls ++ [c.entry]) ∧ Spares d (some (.ref id)) w w' := by
  obtain ⟨own, tracing, trace, hd, hcalls⟩ := h
  obtain ⟨items, hitems, htuples⟩ := exists_list_of_callsOf? hcalls
  have hid : id < w.objects.size := lt_size hitems
  have hdoc : d ≠ id := by
    rintro rfl
    cases hd.symm.trans hitems
  let w' := (w.add (.tuple c.entry)).replace id (.list (items ++ [.ref w.objects.size]))
  have hrun : (listCall d (some (.ref id)) c).runIn w = (.ok (), w') := by
    rw [listCall, runIn_bind_ok (runIn_make' _ w), runIn_append (get_add hitems)]
  have hold : ∀ (i : Nat) (us : List Value), w.objects[i]? = some (.tuple us) →
      w'.objects[i]? = some (.tuple us) := by
    intro i us hi
    have hne : i ≠ id := by
      rintro rfl
      cases hi.symm.trans hitems
    rw [get_replace_ne hne, get_add hi]
  have hnew : w'.tuple? (.ref w.objects.size) = some c.entry := by
    rw [tuple?, get_replace_ne (by omega), get_add_new]
  refine ⟨w', hrun, ⟨own, tracing, trace, ?_, ?_⟩, ⟨by simp [w'], ?_⟩⟩
  · rw [get_replace_ne hdoc, get_add hd]
  · rw [callsOf?, get_replace_self (by simp; omega)]
    show (items ++ [Value.ref w.objects.size]).mapM w'.tuple? = _
    rw [List.mapM_append, mapM_tuple_of hold htuples, List.mapM_cons, hnew]
    rfl
  · intro i hi _ hl
    rw [get_replace_ne fun heq => hl (by rw [heq]), get_add_old hi]

/-- A call is added at the end of the calls. -/
theorem runIn_listCall (h : w.Records d listing calls) (c : DocumentCall) :
    ∃ w', (listCall d listing c).runIn w = (.ok (), w') ∧
      w'.Records d listing (calls ++ [c.entry]) ∧ Spares d listing w w' := by
  rcases listing with _ | _ | id
  · exact runIn_listCall_own h c
  · obtain ⟨_, _, _, -, hcalls⟩ := h
    cases hcalls
  · exact runIn_listCall_listed h c

/-- Writing a line of the trace changes the document only. -/
theorem runIn_writeTrace (h : w.Records d listing calls) (line : String) :
    ∃ w', (writeTrace d line).runIn w = (.ok (), w') ∧ w'.Records d listing calls ∧
      Spares d listing w w' := by
  obtain ⟨own, tracing, trace, hd, hcalls⟩ := h
  let r : Recording Value := ⟨own, listing, .atom tracing, trace ++ line, []⟩
  have hrun : (writeTrace d line).runIn w = (.ok (), w.replace d (.recordingDocument r)) := by
    rw [writeTrace, runIn_bind_ok (runIn_get hd)]
    rfl
  refine ⟨_, hrun, ⟨own, tracing, trace ++ line, get_replace_self (lt_size hd), ?_⟩,
    ⟨by simp, fun i _ hi _ => get_replace_ne hi⟩⟩
  refine callsOf?_of hcalls (fun i items _ hi => ?_) (fun i items hi => ?_)
  all_goals
    have hne : i ≠ d := by
      rintro rfl
      cases hi.symm.trans hd
    rw [get_replace_ne hne, hi]

/-- There is a line to write for a call that can be shown. -/
theorem exists_traceLine {c : DocumentCall} (hc : ∀ v ∈ c.entry, Showable w v) :
    ∃ line, traceLine w c = .ok line := by
  obtain ⟨shown, hshown⟩ : ∃ shown, c.entry.mapM (fun v => (w.read v).quoted) = .ok shown := by
    refine exists_mapM_eq_ok fun v hv => ?_
    rcases hc v hv with ⟨s, rfl⟩ | hcallable
    · exact ⟨_, rfl⟩
    · exact hcallable.quoted
  exact ⟨Message.lineOfTexts Message.spaced ("hypertree.dom:" :: shown), by
    rw [traceLine, hshown]
    rfl⟩

/-- What becomes of the trace depends on whether the document traces at all. -/
theorem runIn_trace (h : w.Records d listing calls) (tracing : Atom) {c : DocumentCall}
    (hc : ∀ v ∈ c.entry, Showable w v) :
    ∃ w', (do
        if (← read (.atom tracing)).truthy then
          writeTrace d (← ofExcept (traceLine (← getThe World) c))).runIn w = (.ok (), w') ∧
      w'.Records d listing calls ∧ Spares d listing w w' := by
  rw [runIn_bind_ok (runIn_read _ w)]
  by_cases htracing : (w.read (.atom tracing)).truthy
  · obtain ⟨line, hline⟩ := exists_traceLine hc
    obtain ⟨w', hwrite, hrecords, hspares⟩ := runIn_writeTrace h line
    refine ⟨w', ?_, hrecords, hspares⟩
    rw [if_pos htracing, runIn_bind_ok (runIn_world w), hline,
      runIn_bind_ok (runIn_ofExcept _ w), hwrite]
  · refine ⟨w, ?_, h, ⟨Nat.le_refl _, fun _ _ _ _ => rfl⟩⟩
    rw [if_neg htracing]
    rfl

/-- Recording a call adds it to the calls and spares everything else. -/
theorem runIn_record (h : w.Records d listing calls) {c : DocumentCall}
    (hc : ∀ v ∈ c.entry, Showable w v) :
    ∃ w', (record d c).runIn w = (.ok (), w') ∧ w'.Records d listing (calls ++ [c.entry]) ∧
      Spares d listing w w' := by
  obtain ⟨w₁, hlist, hrecords, hspares⟩ := runIn_listCall h c
  have hc₁ : ∀ v ∈ c.entry, Showable w₁ v := fun v hv =>
    (hc v hv).imp_right fun hcallable => hspares.callable h hcallable
  obtain ⟨own, tracing, trace, hd, -⟩ := h
  obtain ⟨w', htrace, hrecords', hspares'⟩ := runIn_trace hrecords tracing hc₁
  have hrecord : (recordCall d c).runIn w = (.ok (), w') := by
    rw [recordCall, runIn_bind_ok (runIn_get hd)]
    exact (runIn_bind_ok hlist).trans htrace
  have hskill : (do recordCall d c; return .none : Operation Value).runIn w = (.ok .none, w') := by
    rw [runIn_bind_ok hrecord]
    rfl
  refine ⟨w', ?_, hrecords', hspares.trans hspares'⟩
  rw [record, runIn_bind_ok (runIn_get hd)]
  show (discard (request (.ref d) "_record" ⟨c.entry, []⟩ do
    recordCall d c
    return .none) : Operation Unit).runIn w = _
  exact runIn_discard ((runIn_request hd rfl rfl _ _).trans hskill)

end Operation

/-! ## Recording and building by turns -/

namespace World

variable {w₀ w w' : World} {d : Nat} {listing : Option Value} {earlier : List (List Value)}
  {calls : List DocumentCall} {stack stack' : List (Value × ElementTree)}

theorem Records.document_lt (h : w.Records d listing earlier) : d < w.objects.size := by
  obtain ⟨_, _, _, hd, -⟩ := h
  exact lt_size hd

theorem Records.listing_lt (h : w.Records d listing earlier) {id : Nat}
    (hid : listing = some (.ref id)) : id < w.objects.size := by
  obtain ⟨_, _, _, -, hcalls⟩ := h
  rw [hid] at hcalls
  obtain ⟨items, hitems, -⟩ := exists_list_of_callsOf? hcalls
  exact lt_size hitems

/--
How a world stands to the one in which a recording document began: the calls have been added to
those of the start, the elements on the stack are new, and all else is as it was.
-/
structure Underway (w₀ : World) (d : Nat) (listing : Option Value) (earlier : List (List Value))
    (w : World) (calls : List DocumentCall) (stack : List (Value × ElementTree)) : Prop where
  records : w.Records d listing (earlier ++ calls.map DocumentCall.entry)
  spares : Spares d listing w₀ w
  holds : w.HoldsStack d w₀.objects.size w.objects.size stack

theorem Underway.start (h : w.Records d listing earlier) :
    Underway w d listing earlier w [] [] where
  records := by simpa using h
  spares := ⟨Nat.le_refl _, fun _ _ _ _ => rfl⟩
  holds := Nat.le_refl _

/-- Recording a call adds it and leaves the elements alone. -/
theorem Underway.record (h₀ : w₀.Records d listing earlier)
    (h : Underway w₀ d listing earlier w calls stack) {c : DocumentCall}
    (hc : ∀ v ∈ c.entry, Operation.Showable w₀ v) :
    ∃ w', (Operation.record d c).runIn w = (.ok (), w') ∧
      Underway w₀ d listing earlier w' (calls ++ [c]) stack := by
  have hshow : ∀ v ∈ c.entry, Operation.Showable w v := fun v hv =>
    (hc v hv).imp_right fun hcallable => h.spares.callable h₀ hcallable
  obtain ⟨w', hrun, hrecords, hspares⟩ := Operation.runIn_record h.records hshow
  refine ⟨w', hrun, by simpa using hrecords, h.spares.trans hspares, ?_⟩
  refine (h.holds.frame fun i hlo hhi => ?_).mono hspares.size_le
  refine hspares.kept i hhi ?_ fun hl => ?_
  · have hd := h₀.document_lt
    omega
  · have hl := h₀.listing_lt hl
    omega

/-- Building changes the elements and leaves the calls alone. -/
theorem Underway.build (h₀ : w₀.Records d listing earlier)
    (h : Underway w₀ d listing earlier w calls stack) (hbuilds : Builds w₀.objects.size w w')
    (hholds : w'.HoldsStack d w₀.objects.size w'.objects.size stack') :
    Underway w₀ d listing earlier w' calls stack' where
  records := by
    obtain ⟨own, tracing, trace, hd, hcalls⟩ := h.records
    refine ⟨own, tracing, trace, (hbuilds.kept d h₀.document_lt).trans hd, ?_⟩
    refine callsOf?_of hcalls (fun id items hid hlist => ?_) hbuilds.tuples
    rw [hbuilds.kept id (h₀.listing_lt hid), hlist]
  spares :=
    ⟨Nat.le_trans h.spares.size_le hbuilds.size_le, fun i hi hd hl =>
      (hbuilds.kept i hi).trans (h.spares.kept i hi hd hl)⟩
  holds := hholds

end World

open World Operation in
/-- A recording document adds its calls to those that it had and builds new elements. -/
theorem recordingHost_follows {w₀ : World} {d : Nat} {listing : Option Value}
    {earlier : List (List Value)} (h₀ : w₀.Records d listing earlier) :
    (recordingHost d).Follows (Underway w₀ d listing earlier) w₀.Callable where
  createElement {w calls stack} name h := by
    obtain ⟨w₁, hrecord, h₁⟩ := h.record h₀ (c := .createElement (.text name)) (by
      simp [DocumentCall.entry, Showable])
    obtain ⟨e, w₂, isVoid, hmake, hbuilds, hholds⟩ := runIn_makeElement h₁.holds name
    refine ⟨e, w₂, isVoid, ?_, h₁.build h₀ hbuilds hholds⟩
    exact (runIn_bind_ok hrecord).trans hmake
  keepVoid {w calls stack e p} isVoid h := by
    obtain ⟨w₁, hkeep, hbuilds, hholds⟩ := runIn_keepElementVoid h.holds isVoid
    exact ⟨w₁, hkeep, h.build h₀ hbuilds hholds⟩
  set {w calls stack e p s} hs h := by
    rcases s with ⟨key, value⟩ | ⟨changed, value⟩ | ⟨event, callee⟩
    · obtain ⟨w₁, hrecord, h₁⟩ := h.record h₀ (c := .setAttribute (.text p.name) (.text key)
        (.text value)) (by simp [DocumentCall.entry, Showable])
      obtain ⟨w₂, hset, hbuilds, hholds⟩ := runIn_setElementAttribute h₁.holds key value
      refine ⟨w₂, ?_, h₁.build h₀ hbuilds hholds⟩
      exact (runIn_bind_ok (runIn_label_top h.holds)).trans ((runIn_bind_ok hrecord).trans hset)
    · obtain ⟨w₁, hassign, hbuilds, hholds⟩ := runIn_assign h.holds changed value
      have h₁ := h.build h₀ hbuilds hholds
      obtain ⟨w₂, hrecord, h₂⟩ := h₁.record h₀ (c := .setProperty (.text p.name) changed
        (.text value)) (by simp [DocumentCall.entry, Showable])
      obtain ⟨own, tracing, trace, hd, -⟩ := h₁.records
      have hlabel : (label e).runIn w₁ = (.ok (.text p.name), w₁) := by
        simpa using runIn_label_top h₁.holds
      exact ⟨w₂, hassign.trans (runIn_tellAssigned hd rfl rfl hlabel hrecord), h₂⟩
    · obtain ⟨w₁, hrecord, h₁⟩ := h.record h₀ (c := .addEventListener (.text p.name)
        (.text event) callee) (by simpa [DocumentCall.entry, Showable] using .inr hs)
      obtain ⟨w₂, hset, hbuilds, hholds⟩ := runIn_addElementListener h₁.holds event callee
      refine ⟨w₂, ?_, h₁.build h₀ hbuilds hholds⟩
      exact (runIn_bind_ok (runIn_label_top h.holds)).trans ((runIn_bind_ok hrecord).trans hset)
  createTextNode {w calls stack} s h := by
    obtain ⟨w₁, hrecord, h₁⟩ := h.record h₀ (c := .createTextNode (.text s)) (by
      simp [DocumentCall.entry, Showable])
    obtain ⟨v, w₂, hmake, hbuilds, hholds⟩ := runIn_makeText h₁.holds s
    exact ⟨v, w₂, (runIn_bind_ok hrecord).trans hmake, h₁.build h₀ hbuilds hholds⟩
  appendChild {w calls stack v child e p children} h := by
    obtain ⟨mid, hchild, hbelow⟩ := h.holds
    obtain ⟨_, hparent, -⟩ := hbelow
    have hparentLabel := runIn_label hparent
    have hchildLabel := runIn_label hchild
    obtain ⟨w₁, hrecord, h₁⟩ := h.record h₀ (c := .appendChild (.text p.name)
      (.text child.label)) (by simp [DocumentCall.entry, Showable])
    obtain ⟨w₂, happend, hbuilds, hholds⟩ := runIn_appendToElement h₁.holds
    refine ⟨w₂, ?_, h₁.build h₀ hbuilds hholds⟩
    exact (runIn_bind_ok hparentLabel).trans ((runIn_bind_ok hchildLabel).trans
      ((runIn_bind_ok hrecord).trans happend))
  appendText e v := rfl

end Markup
