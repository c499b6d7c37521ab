import Markup.Document.Documents
import Markup.Proofs.Construction.Callees

/-!
# From registering listeners to calling them

An element that was made of a node calls what was registered by then, event by event and in order
(`Operation.runIn_askDispatch`): the listeners that the call of the constructor gave, then those
that `on` added before the element was made.  What is added to the node later is not called
(`dispatch_constructed`).

A listener can do anything when it is called, and the list that is gone through is the one that the
element keeps.  So this holds of listeners that leave this list as it is (`World.LeavesBe`),
whatever else they do; one that adds to the list is heard of in the same dispatch
(`dispatch_calls_what_is_added`).
-/

namespace Markup

open Operation

namespace Operation

/-- Calls values in turn with the same arguments, until one fails. -/
def callEach (call : Value → List Value → Operation Unit) (callees args : List Value) :
    Operation Unit :=
  callees.forM fun callee => call callee args

/-- The element that a new document in memory makes of a value. -/
def materializeInMemory (v : Value) : Operation Value := do
  materialize v (← makeMemoryDocument)

end Operation

namespace World

variable {w w' : World} {e : Value} {lo : Nat} {called : String → List Value}

/--
An element whose listeners are the given ones for each event, and which was made after there were
`lo` objects.
-/
def Dispatches (w : World) (lo : Nat) (e : Value) (called : String → List Value) : Prop :=
  ∃ d n rows listeners, e = .ref (n + 3) ∧ lo ≤ d ∧ lo ≤ n ∧ w.Hosts d n ∧
    w.KeepsListeners (n + 1) rows listeners ∧ (∀ r ∈ rows, lo ≤ r.2) ∧
    ∀ event, listeners.listed event = called event

/-- The list of the listeners that an element has for an event. -/
def HoldsListeners (w : World) (e : Value) (event : String) (cell : Nat) : Prop :=
  ∃ i element l es items, e = .ref i ∧ w.objects[i]? = some (.element element) ∧
    element.listeners = .ref l ∧ w.objects[l]? = some (.map es) ∧
      (.text event, .ref cell) ∈ es ∧ w.objects[cell]? = some (.list items)

/-- Values that are called in turn leave an object as it is, whenever the next one is called. -/
def LeavesBe (w : World) (call : Value → List Value → Operation Unit) (callees args : List Value)
    (cell : Nat) : Prop :=
  ∀ k w', (callEach call (callees.take k) args).runIn w = (.ok (), w') →
    w'.objects[cell]? = w.objects[cell]?

/-- Calls that only make objects leave all that are there as they are. -/
theorem leavesBe_of_extending {call : Value → List Value → Operation Unit} {args : List Value}
    (h : ∀ callee, Extending (call callee args)) (callees : List Value) {cell : Nat}
    (hcell : cell < w.objects.size) : w.LeavesBe call callees args cell := by
  intro k w' hrun
  have hextends : w.Extends w' := by
    have hall := closed_extending.forM h (callees.take k) w
    rw [show ((callees.take k).forM fun callee => call callee args).runIn w = _ from hrun] at hall
    exact hall
  obtain ⟨o, ho⟩ := exists_of_lt_size hcell
  rw [ho, hextends.kept ho]

/-- What is older than an element can change without it. -/
theorem Dispatches.frame (h : w.Dispatches lo e called) {opened : Nat → Prop}
    (hchanges : w.ChangesOnly opened w') (hopened : ∀ i, opened i → i < lo) :
    w'.Dispatches lo e called := by
  obtain ⟨d, n, rows, listeners, he, hd, hn, hosts, hkeeps, hrows, hcalled⟩ := h
  have hclosed : ∀ i, lo ≤ i → ¬ opened i := by
    intro i hle hopen
    have hlt := hopened i hopen
    omega
  exact ⟨d, n, rows, listeners, he, hd, hn,
    hosts.frame hchanges (hclosed d hd) (hclosed _ (by omega)) (hclosed _ (by omega)),
    hkeeps.frame hchanges (hclosed _ (by omega)) fun r hr => hclosed _ (hrows r hr), hrows, hcalled⟩

/-- The listeners of an event are in the list of its row, and there are none without a row. -/
theorem HoldsRows.cases_get? {rows : Entries String Nat} {listeners : Entries String (List Value)}
    (h : w.HoldsRows rows listeners) (event : String) :
    (rows.get? event = none ∧ listeners.listed event = []) ∨
      ∃ cell, rows.get? event = some cell ∧ (event, cell) ∈ rows ∧
        w.objects[cell]? = some (.list (listeners.listed event)) := by
  induction h with
  | nil => exact .inl ⟨rfl, rfl⟩
  | @cons r l rows listeners hrow _ ih =>
    rw [Entries.listed, Entries.get?_cons, Entries.get?_cons, ← hrow.1]
    by_cases hr : r.1 == event
    · rw [if_pos hr, if_pos hr]
      obtain rfl := eq_of_beq hr
      exact .inr ⟨r.2, rfl, List.mem_cons_self, hrow.2⟩
    · rw [if_neg hr, if_neg hr]
      refine ih.imp_right ?_
      rintro ⟨cell, hcell, hmem, hlist⟩
      exact ⟨cell, hcell, List.mem_cons_of_mem _ hmem, hlist⟩

end World

namespace Operation

open World

variable {w w' : World} {lo : Nat} {e : Value} {called : String → List Value}

/-! ## Dispatching -/

theorem runIn_itemAt {id place : Nat} {items : List Value}
    (h : (itemsOf (.ref id)).runIn w = (.ok items, w)) :
    (itemAt (.ref id) place).runIn w = (.ok items[place]?, w) := by
  show (itemsOf (.ref id) >>= fun items => pure items[place]?).runIn w = _
  rw [runIn_bind_ok h]
  rfl

/--
Where a list stays as it is, its items are called one after the other.  The limit only has to leave
room for one more look at the list.
-/
theorem runIn_callItems {call : Value → Operation Unit} {id limit place : Nat} {items : List Value}
    (h : ∀ k w', (((items.drop place).take k).forM call).runIn w = (.ok (), w') →
      (itemsOf (.ref id)).runIn w' = (.ok items, w')) (hlimit : items.length < place + limit) :
    (callItems call (.ref id) limit place).runIn w = ((items.drop place).forM call).runIn w := by
  induction limit generalizing w place with
  | zero => rw [callItems, List.drop_eq_nil_of_le (by omega)]; rfl
  | succ limit ih =>
    rw [callItems, runIn_bind_ok (runIn_itemAt (h 0 w rfl))]
    cases hitem : items[place]? with
    | none =>
      rw [List.drop_eq_nil_of_le (List.getElem?_eq_none_iff.mp hitem)]
      rfl
    | some v =>
      obtain ⟨hplace, hv⟩ := List.getElem?_eq_some_iff.mp hitem
      have hdrop : items.drop place = v :: items.drop (place + 1) := by
        rw [List.drop_eq_getElem_cons hplace, hv]
      rw [hdrop] at h ⊢
      show (call v >>= fun _ => callItems call (.ref id) limit (place + 1)).runIn w =
        (call v >>= fun _ => (items.drop (place + 1)).forM call).runIn w
      rw [runIn_bind, runIn_bind]
      rcases hcall : (call v).runIn w with ⟨r, w₁⟩
      cases r with
      | error f => rfl
      | ok u =>
        refine ih (fun k w' hrun => h (k + 1) w' ?_) (by omega)
        show (call v >>= fun _ => ((items.drop (place + 1)).take k).forM call).runIn w = _
        rw [runIn_bind_ok hcall, hrun]

theorem extending_callPlainly (args : List Value) (callee : Value) :
    Extending (callPlainly callee args) :=
  closed_extending.discard (extending_callValue callee _)

/-- What holds the listeners of an event in a map: a list of them, or an empty tuple. -/
theorem runIn_listenersFor {l : Nat} {rows : Entries String Nat}
    {listeners : Entries String (List Value)} (h : w.KeepsListeners l rows listeners)
    (event : String) : ∃ id, (listenersFor (.ref l) (.text event)).runIn w =
        (.ok (.ref id), w.add (.tuple [])) ∧
      ((listeners.listed event = [] ∧ (w.add (.tuple [])).objects[id]? = some (.tuple [])) ∨
        (event, id) ∈ rows ∧ w.objects[id]? = some (.list (listeners.listed event))) := by
  have hmake : (make (.tuple [])).runIn w = (.ok (.ref w.objects.size), w.add (.tuple [])) :=
    runIn_make' _ _
  have hfound : (listenersFor (.ref l) (.text event)).runIn w =
      (.ok (((rows.get? event).map Value.ref).getD (.ref w.objects.size)), w.add (.tuple [])) := by
    rw [listenersFor, runIn_bind_ok hmake, runIn_bind_ok (runIn_objectOf (get_add h.map))]
    show (readKey (.text event) >>= _).runIn _ = _
    rw [runIn_bind_ok (runIn_readKey event _), runIn_bind_ok (runIn_world _),
      Entries.readKeys_stored, Entries.get?_stored]
    rfl
  rcases h.held.cases_get? event with ⟨hrow, hnone⟩ | ⟨cell, hrow, hmem, hcell⟩
  · rw [hrow] at hfound
    exact ⟨_, hfound, .inl ⟨hnone, get_add_new⟩⟩
  · rw [hrow] at hfound
    exact ⟨_, hfound, .inr ⟨hmem, hcell⟩⟩

/--
An element calls its listeners of an event in order, until one fails, and nothing else, where they
leave the list of them as it is.
-/
theorem runIn_askDispatch {call : Value → List Value → Operation Unit} {limit : Nat}
    (h : w.Dispatches lo e called) {event : String} {args : List Value}
    (hlimit : (called event).length < limit)
    (hleft : ∀ cell, w.HoldsListeners e event cell →
      (w.add (.tuple [])).LeavesBe call (called event) args cell) :
    (askDispatch call limit e (.text event) args).runIn w =
      (callEach call (called event) args).runIn (w.add (.tuple [])) := by
  obtain ⟨d, n, rows, listeners, rfl, -, -, hosts, hkeeps, -, hcalled⟩ := h
  obtain ⟨⟨_, _, _, _, _, _, _, _, _⟩, he, hover⟩ := hosts.element
  obtain ⟨rfl, rfl, rfl, rfl, rfl⟩ := hover
  obtain ⟨id, hfound, hheld⟩ := runIn_listenersFor hkeeps event
  rw [hcalled] at hheld
  have hitems : ∀ k w', (callEach call ((called event).take k) args).runIn (w.add (.tuple [])) =
      (.ok (), w') → (itemsOf (.ref id)).runIn w' = (.ok (called event), w') := by
    intro k w' hrun
    rcases hheld with ⟨hnone, hid⟩ | ⟨hrow, hcell⟩
    · rw [hnone, List.take_nil] at hrun
      obtain rfl : w.add (.tuple []) = w' := congrArg Prod.snd hrun
      rw [hnone, runIn_itemsOf_iff, read_ref hid]
      rfl
    · have hregistered : w.HoldsListeners (.ref (n + 3)) event id :=
        ⟨_, _, _, _, _, rfl, he, rfl, hkeeps.map, List.mem_map.mpr ⟨_, hrow, rfl⟩, hcell⟩
      exact runIn_itemsOf ((hleft id hregistered k w' hrun).trans (get_add hcell))
  have hdispatch : (dispatchEvent call limit (.ref (n + 3)) (.text event) args).runIn w =
      (callEach call (called event) args).runIn (w.add (.tuple [])) := by
    rw [dispatchEvent, runIn_bind_ok (runIn_member_element hosts (v := .ref (n + 1)) (by simp)),
      runIn_bind_ok hfound]
    exact runIn_callItems hitems (by omega)
  rw [← hdispatch]
  show (request (.ref (n + 3)) "dispatch_event" ⟨.text event :: args, []⟩ (do
    dispatchEvent call limit (.ref (n + 3)) (.text event) args
    return .none) >>= fun _ => pure ()).runIn w = _
  rw [runIn_bind, runIn_request he rfl rfl, runIn_bind]
  rcases (dispatchEvent call limit (.ref (n + 3)) (.text event) args).runIn w with ⟨r, w₁⟩
  cases r <;> rfl

/-! ## Making an element of a node that has listeners -/

/--
An element is made of new objects only, and it has the listeners that its node has at that moment.
-/
theorem dispatches_of_materialize {t : Node Value} {i l : Nat} {rows : Entries String Nat}
    {listeners : Entries String (List Value)} (hn : w.objects[i]? = some (.node t))
    (hl : t.listeners = .ref l) (hkeeps : w.KeepsListeners l rows listeners)
    (hrun : (materializeInMemory (.ref i)).runIn w = (.ok e, w')) :
    w.Retains 0 w' ∧ w'.Dispatches w.objects.size e listeners.listed := by
  let u := w.add (.memoryDocument [])
  have hd : u.objects[w.objects.size]? = some (.memoryDocument []) := get_add_new
  have hdocument : makeMemoryDocument.runIn w = (.ok (.ref w.objects.size), u) := rfl
  rw [materializeInMemory, runIn_bind_ok hdocument,
    runIn_materialize_node hd (read_ref (get_add hn))] at hrun
  have hretains := Host.retains_materializeNode hd hrun
  obtain ⟨rfl, w₁, w₂, w₃, -, hosts, hempty, hlisteners, hcontent, hchildren⟩ :=
    Host.exists_of_materializeNode hd hrun
  have hsize : u.objects.size = w.objects.size + 1 := size_add
  -- the listeners are read while they are as they were
  have hshows : (t.map (u.unfold true u.objects.size)).listeners.ShowsListeners listeners := by
    have hlt := lt_size hn
    obtain ⟨depth, hdepth⟩ : ∃ depth, u.objects.size = depth + 2 :=
      ⟨w.objects.size - 1, by omega⟩
    have hadd : w.ChangesOnly (fun _ => False) u := changesOnly_add
    have hkeepsNow := hkeeps.frame hadd (fun h => h) fun _ _ h => h
    show (u.unfold true u.objects.size t.listeners).ShowsListeners listeners
    rw [hl, hdepth]
    exact hkeepsNow.shows true _ depth
  have hstart : w₁.Registers (· = u.objects.size + 1) w₁ (u.objects.size + 1) [] :=
    (keepsListeners_nil hempty).registers rfl fun _ hr => nomatch hr
  obtain ⟨w₂', hregister, hosts₂, hregisters⟩ := hstart.exists_runIn_addListeners hosts hshows
  obtain rfl : w₂ = w₂' := congrArg Prod.snd (hlisteners.symm.trans hregister)
  -- what is inside the element is made apart from its listeners
  obtain ⟨hcontents, hosts₃⟩ := Host.touches_addContent _ hosts₂ hcontent
  obtain ⟨hbelow, hosts'⟩ := Host.touches_appendChildren _ hosts₃ hchildren
  obtain ⟨rows', hkeeps', hrows⟩ := hregisters.keeps
  have hlater : ∀ r ∈ rows', u.objects.size + 4 ≤ r.2 := by
    intro r hr
    obtain ⟨e, he, -⟩ := hosts.element
    have hlt := lt_size he
    rcases hrows r hr with heq | hle
    · exact absurd heq (hkeeps'.ne r hr)
    · omega
  refine ⟨changesOnly_add.trans hretains, w.objects.size, u.objects.size, rows', _, rfl,
    Nat.le_refl _, by omega, hosts', hkeeps'.frame (hcontents.trans hbelow) (by omega) ?_, ?_, ?_⟩
  · intro r hr heq
    have hle := hlater r hr
    omega
  · intro r hr
    have hle := hlater r hr
    omega
  · intro event
    rw [Entries.listed_extendEach, Entries.itemsFor_itemized hkeeps.events]
    rfl

end Operation

open World

/--
Listeners are called in the order in which they came: an element that is made of a node calls for an
event those that the mapping and the keywords of the constructor gave, then those that `on` added by
then, each with exactly the arguments of the event, until one fails.  Those that `on` adds later are
not called, nor are those of other events.  All that is asked of the call is that its mapping has
texts for keys, each once, and that the objects it refers to are there.  The listeners may do
anything when they are called, but leave the list of them as it is.
-/
theorem dispatch_constructed {x : Operation Value} {a : Arguments} {w w₁ : World} {i : Nat}
    {n : Node Value} {m : Entries String Value} (hx : ConstructorCall x a)
    (hrun : x.runIn w = (.ok (.ref i), w₁)) (hn : w₁.objects[i]? = some (.node n))
    (hm : w.mappingGiven a = some (m.stored .text fun v => v)) (hkeys : (Entries.keys m).Nodup)
    (hargs : w.Has a.one ∧ w.Has a.two) (hvalues : ∀ e ∈ m ++ a.kw, w.HasAll e.2)
    (before later : List (String × Value)) :
    ∃ w₂, (onEach (.ref i) before).runIn w₁ = (.ok (), w₂) ∧
      ∀ e w₃, (materializeInMemory (.ref i)).runIn w₂ = (.ok e, w₃) →
        ∃ w₄, (onEach (.ref i) later).runIn w₃ = (.ok (), w₄) ∧
          ∀ (call : Value → List Value → Operation Unit) (event : String) (args : List Value)
            (limit : Nat),
            (w.calleesFor m a.kw event ++ Entries.itemsFor before event).length < limit →
            (∀ cell, w₄.HoldsListeners e event cell → (w₄.add (.tuple [])).LeavesBe call
              (w.calleesFor m a.kw event ++ Entries.itemsFor before event) args cell) →
            (askDispatch call limit e (.text event) args).runIn w₄ =
              (callEach call (w.calleesFor m a.kw event ++ Entries.itemsFor before event)
                args).runIn (w₄.add (.tuple [])) := by
  obtain ⟨w₀, name, flag, hext, hconstruct⟩ := hx.exists_construct hrun hn
  obtain ⟨s, content, children, flag, hdescribe, hi, hmade⟩ :=
    exists_made_of_construct hconstruct
  obtain rfl := Value.ref.inj hi
  rw [← hext.mappingGiven_eq hargs.1 hargs.2] at hm
  obtain ⟨hevents, hlisted⟩ := values_listed hm hkeys hdescribe
  have hl : n.listeners = .ref (s.listenersAt w₀.objects.size) := by
    rw [hmade, AttributeSet.get_node, Option.some.injEq, Object.node.injEq] at hn
    rw [← hn]
    rfl
  have hkeeps : w₁.KeepsListeners (s.listenersAt w₀.objects.size) (s.rows w₀.objects.size)
      (s.listeners.map fun e => (e.1, values e.2)) := by
    rw [hmade]
    exact AttributeSet.keepsListeners_made hevents
  -- the node keeps what the call gave, and `on` adds to it
  obtain ⟨w₂, hbefore, hadded⟩ :=
    exists_runIn_onEach hn hl (fun h => h.2 rfl) (hkeeps.registers_of_node hn (.refl _ _)) before
  refine ⟨w₂, hbefore, fun e w₃ hmake => ?_⟩
  obtain ⟨rows₂, hkeeps₂, -⟩ := hadded.keeps
  have hn₂ := hadded.changes.spared hn fun h => h.2 rfl
  obtain ⟨hretains, hdispatches⟩ := dispatches_of_materialize hn₂ hl hkeeps₂ hmake
  -- what is added later goes into objects of the node, which are older than the element
  obtain ⟨w₄, hlater, haddedLater⟩ := exists_runIn_onEach (hretains.kept (Nat.zero_le _) hn₂) hl
    (fun h => h.2 rfl) (hkeeps₂.registers_of_node hn₂ hretains) later
  refine ⟨w₄, hlater, fun call event args limit hlimit hleft => ?_⟩
  have hsame : (Entries.extendEach (s.listeners.map fun e => (e.1, values e.2)) before).listed
      event = w.calleesFor m a.kw event ++ Entries.itemsFor before event := by
    rw [Entries.listed_extendEach, AttributeSet.listed_map_values, hlisted, hext.calleesFor_eq]
    · exact fun e he => hvalues e (List.mem_append_left _ he)
    · exact fun e he => hvalues e (List.mem_append_right _ he)
  rw [← hsame] at hlimit hleft ⊢
  exact runIn_askDispatch (hdispatches.frame haddedLater.changes fun k hk => hk.1) hlimit hleft

/-! ### A node whose second listener refuses -/

/-- A world with a listener, one that refuses, and a mapping that has the first one for clicks. -/
def World.withCallees : World :=
  ((World.initial.add (.listener (.text "p") none none [])).add
    (.listener (.text "q") (some "no") none [])).add (.map [(.text "onclick", .ref 144)])

/-- The world after a node was made of that mapping and a keyword. -/
def World.withCallingNode : World :=
  ((callValue (.ref 1) ⟨[.ref 146], [("onclick", .ref 145)]⟩).runIn .withCallees).2

/--
The listener of the mapping is called for a click, then that of the keyword, which refuses, so that
of `on` is not reached.
-/
theorem dispatch_constructed_refused : ∃ w₂ e w₃ w₄,
    (onEach (.ref 152) [("click", .ref 144)]).runIn .withCallingNode = (.ok (), w₂) ∧
    (materializeInMemory (.ref 152)).runIn w₂ = (.ok e, w₃) ∧
    (onEach (.ref 152) [("click", .ref 145)]).runIn w₃ = (.ok (), w₄) ∧
    (askDispatch callPlainly 4 e (.text "click") [.text "x"]).runIn w₄ =
      (callEach callPlainly [.ref 144, .ref 145, .ref 144] [.text "x"]).runIn
        (w₄.add (.tuple [])) ∧
    ((askDispatch callPlainly 4 e (.text "click") [.text "x"]).runIn w₄).1 =
      .error (.refused "no") := by
  have hrun : (callValue (.ref 1) ⟨[.ref 146], [("onclick", .ref 145)]⟩).runIn .withCallees =
      (.ok (.ref 152), .withCallingNode) := runIn_of_fst (by decide +kernel)
  have hn : World.withCallingNode.objects[152]? = some (.node ⟨.text "a", .bool false, .none,
      .ref 147, .none, .ref 149, .ref 150, .text "", .ref 151⟩) := by decide +kernel
  have hsize : World.withCallees.objects.size = 147 := by decide +kernel
  have hsequence : ∀ i ∈ [144, 145], World.withCallees.sequence? (.ref i) = none := by
    decide +kernel
  have hall : ∀ i ∈ [144, 145], World.withCallees.HasAll (.ref i) := by
    intro i hi
    have hlt : i < 147 := by
      simp only [List.mem_cons, List.not_mem_nil, or_false] at hi
      omega
    refine ⟨Value.between_ref (Nat.zero_le i) (by omega), fun items hitems => ?_⟩
    rw [hsequence i hi] at hitems
    cases hitems
  obtain ⟨w₂, hbefore, hmade⟩ := dispatch_constructed (m := [("onclick", .ref 144)])
    (.object (.ref 1) (a := ⟨.ref 146, .none, .none, [("onclick", .ref 145)]⟩) rfl) hrun hn
    (by decide +kernel) (by decide)
    ⟨Value.between_ref (by omega) (by omega), Value.between_atom _ _ _⟩
    (by simpa using ⟨hall 144 (by simp), hall 145 (by simp)⟩)
    [("click", .ref 144)] [("click", .ref 145)]
  obtain rfl := congrArg Prod.snd hbefore
  have hmake := runIn_of_fst (x := materializeInMemory (.ref 152))
    (w := ((onEach (.ref 152) [("click", .ref 144)]).runIn .withCallingNode).2)
    (r := .ok (.ref 157)) (by decide +kernel)
  obtain ⟨w₄, hlater, hcalls⟩ := hmade _ _ hmake
  have hgiven : World.withCallees.calleesFor [("onclick", .ref 144)] [("onclick", .ref 145)]
      "click" = [.ref 144, .ref 145] := by decide +kernel
  refine ⟨_, _, _, w₄, hbefore, hmake, hlater, ?_, ?_⟩
  · rw [hcalls callPlainly "click" [.text "x"] 4 (by rw [hgiven]; decide) ?_, hgiven]
    · rfl
    · rintro cell ⟨_, _, _, _, _, -, -, -, -, -, hcell⟩
      exact leavesBe_of_extending (extending_callPlainly [.text "x"]) _ (lt_size (get_add hcell))
  · obtain rfl := congrArg Prod.snd hlater
    decide +kernel

/-- What notes each call, and registers one more listener when it is called itself. -/
def callAdding (adding added : Value) (cell : Nat) (callee : Value) (args : List Value) :
    Operation Unit := do
  hear callee args
  if callee = adding then append (.ref cell) added

/--
A keyword that is named like a parameter is no listener, though it starts with the mark of one.  And
a listener that adds to the list which is gone through is followed by what it adds.
-/
theorem dispatch_calls_what_is_added :
    ((do
      let node ← callValue (.ref 1) ⟨[], [("one", .ref 144), ("two", .ref 146)]⟩
      let e ← materializeInMemory node
      askDispatch callPlainly 4 e (.text "e") []
      return (← getThe World).heard : Operation (Array (Value × List Value))).runIn
        .withCallees).1 = .ok #[] ∧
    ((do
      let e ← materializeInMemory (.ref 152)
      askDispatch (callAdding (.ref 145) (.ref 144) 158) 4 e (.text "click") []
      return (← getThe World).heard : Operation (Array (Value × List Value))).runIn
        .withCallingNode).1 = .ok #[(.ref 144, []), (.ref 145, []), (.ref 144, [])] :=
  ⟨by decide +kernel, by decide +kernel⟩

end Markup
