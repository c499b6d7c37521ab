import Markup.Proofs.Document.Apart
import Markup.Proofs.Entries

/-!
# Registering listeners

Nodes and elements keep their listeners in the same way: a map with a list for each event
(`World.KeepsListeners`).  A further listener goes to the end of the list of its event, and nothing
is changed for it but the map and the lists, of which new ones may be made
(`World.Registers.exists_register`).

So `on` adds listeners to a node one after the other (`Operation.exists_runIn_onEach`), and
materialising the node registers those that it has by then in lists of the element
(`Host.exists_runIn_addListeners`), which no later `on` reaches.
-/

namespace Markup

namespace World

variable {w₀ w w' : World} {own : Nat → Prop} {l cell : Nat} {rows : Entries String Nat}
  {listeners : Entries String (List Value)} {event : String} {callee : Value}

/-- A map with a list of the listeners for each event, in lists of its own. -/
structure KeepsListeners (w : World) (l : Nat) (rows : Entries String Nat)
    (listeners : Entries String (List Value)) : Prop where
  map : w.objects[l]? = some (.map (rows.stored .text .ref))
  held : w.HoldsRows rows listeners
  distinct : (rows.map (·.2)).Nodup
  events : (Entries.keys listeners).Nodup

theorem HoldsRows.exists_list (h : w.HoldsRows rows listeners) :
    ∀ r ∈ rows, ∃ items, w.objects[r.2]? = some (.list items) := by
  induction h with
  | nil =>
    intro r hr
    cases hr
  | cons hrow _ ih => exact List.forall_mem_cons.mpr ⟨⟨_, hrow.2⟩, ih⟩

/-- The map itself is none of the lists. -/
theorem KeepsListeners.ne (h : w.KeepsListeners l rows listeners) : ∀ r ∈ rows, r.2 ≠ l := by
  intro r hr heq
  obtain ⟨items, hitems⟩ := h.held.exists_list r hr
  rw [heq, h.map] at hitems
  cases hitems

/-- The listeners stay where the map and the lists do. -/
theorem KeepsListeners.frame (h : w.KeepsListeners l rows listeners) {opened : Nat → Prop}
    (hchanges : w.ChangesOnly opened w') (hl : ¬ opened l) (hrows : ∀ r ∈ rows, ¬ opened r.2) :
    w'.KeepsListeners l rows listeners where
  map := hchanges.spared h.map hl
  held := by
    refine h.held.frame fun r hr => ?_
    obtain ⟨items, hitems⟩ := h.held.exists_list r hr
    rw [hitems, hchanges.spared hitems (hrows r hr)]
  distinct := h.distinct
  events := h.events

theorem keepsListeners_nil (h : w.objects[l]? = some (.map [])) : w.KeepsListeners l [] [] :=
  ⟨h, .nil, List.nodup_nil, List.nodup_nil⟩

/--
The listeners in a map some time after the world was `w₀`, since when only what is the map's own
was changed.
-/
structure Registers (own : Nat → Prop) (w₀ w : World) (l : Nat)
    (listeners : Entries String (List Value)) : Prop where
  changes : w₀.ChangesOnly own w
  map : own l
  keeps : ∃ rows, w.KeepsListeners l rows listeners ∧ ∀ r ∈ rows, own r.2 ∨ w₀.objects.size ≤ r.2

theorem KeepsListeners.registers (h : w.KeepsListeners l rows listeners) (hl : own l)
    (hrows : ∀ r ∈ rows, own r.2) : w.Registers own w l listeners :=
  ⟨.refl own w, hl, rows, h, fun r hr => .inl (hrows r hr)⟩

/-- A node keeps its listeners in objects that are no nodes and stay while others are made. -/
theorem KeepsListeners.registers_of_node (h : w.KeepsListeners l rows listeners) {i : Nat}
    {t : Node Value} (ht : w.objects[i]? = some (.node t)) (hretains : w.Retains 0 w') :
    w'.Registers (fun k => k < w.objects.size ∧ k ≠ i) w' l listeners := by
  have hkeeps := h.frame hretains (Nat.not_lt_zero _) fun _ _ => Nat.not_lt_zero _
  refine hkeeps.registers ⟨lt_size h.map, ?_⟩ fun r hr => ⟨h.held.lt_size r hr, ?_⟩
  · rintro rfl
    exact nomatch ht.symm.trans h.map
  · rintro rfl
    obtain ⟨items, hitems⟩ := h.held.exists_list r hr
    exact nomatch ht.symm.trans hitems

open Operation in
/-- One more listener of an event is registered after those that are there. -/
theorem Registers.exists_register (h : w₀.Registers own w l listeners) (event : String)
    (callee : Value) : ∃ w', (appendUnder (.ref l) (.text event) callee).runIn w = (.ok (), w') ∧
      w₀.Registers own w' l (listeners.extend event [callee]) := by
  obtain ⟨rows, hkeeps, hown⟩ := h.keeps
  have hevents : (Entries.keys (listeners.extend event [callee])).Nodup :=
    Entries.nodup_keys_alter hkeeps.events
  cases hk : rows.get? event with
  | some cell =>
    obtain ⟨hcell, items, hitems, hrows⟩ := hkeeps.held.extend_held hkeeps.distinct hk callee
    obtain ⟨r, hr, rfl⟩ := List.mem_map.mp hcell
    refine ⟨_, runIn_appendUnder_held hkeeps.map hk hitems callee, ?_, h.map, rows,
      ⟨?_, hrows, hkeeps.distinct, hevents⟩, hown⟩
    · rcases hown r hr with hopen | hnew
      · exact h.changes.trans (changesOnly_replace hopen)
      · exact h.changes.replace hnew
    · rw [get_replace_ne (hkeeps.ne r hr).symm, hkeeps.map]
  | none =>
    have hl := lt_size hkeeps.map
    refine ⟨_, runIn_appendUnder_missing hkeeps.map hk callee, ?_, h.map,
      rows ++ [(event, w.objects.size)], ⟨?_, ?_, ?_, hevents⟩, ?_⟩
    · exact (h.changes.trans changesOnly_add).trans (changesOnly_replace h.map)
    · refine get_replace_self ?_
      rw [size_add]
      omega
    · refine HoldsRows.extend_missing ?_ hk ?_
      · refine hkeeps.held.frame fun r hr => ?_
        rw [get_replace_ne (hkeeps.ne r hr), get_add_old (hkeeps.held.lt_size r hr)]
      · rw [get_replace_ne (by omega), get_add_new]
    · rw [List.map_append, List.nodup_append]
      refine ⟨hkeeps.distinct, List.nodup_singleton _, ?_⟩
      intro i hi j hj heq
      obtain ⟨r, hr, rfl⟩ := List.mem_map.mp hi
      rw [List.map_singleton, List.mem_singleton] at hj
      have hlt := hkeeps.held.lt_size r hr
      omega
    · intro r hr
      rcases List.mem_append.mp hr with hold | hnew
      · exact hown r hold
      · rw [List.mem_singleton.mp hnew]
        exact .inr h.changes.size_le

end World

namespace Operation

open World

variable {w₀ w : World} {own : Nat → Prop} {d i l n : Nat}
  {listeners : Entries String (List Value)}

/-! ## Listeners of a node -/

/-- Adds listeners to a node, one after the other. -/
def onEach (v : Value) (calls : List (String × Value)) : Operation Unit :=
  calls.forM fun c => discard (on v (.text c.1) c.2)

/-- Listeners that are added to a node go behind those that it has, each event by itself. -/
theorem exists_runIn_onEach {t : Node Value} (hn : w₀.objects[i]? = some (.node t))
    (hl : t.listeners = .ref l) (hi : ¬ own i) (h : w₀.Registers own w l listeners)
    (calls : List (String × Value)) :
    ∃ w', (onEach (.ref i) calls).runIn w = (.ok (), w') ∧
      w₀.Registers own w' l (listeners.extendEach calls) := by
  induction calls generalizing w listeners with
  | nil => exact ⟨w, rfl, h⟩
  | cons c calls ih =>
    obtain ⟨w₁, hregister, hheld⟩ := h.exists_register c.1 c.2
    obtain ⟨w', hrest, hheld'⟩ := ih hheld
    have hmember : (member (.ref i) "listeners").runIn w = (.ok (.ref l), w) := by
      rw [← hl]
      exact runIn_member (h.changes.spared hn hi) rfl rfl
    have hon : (on (.ref i) (.text c.1) c.2).runIn w = (.ok (.ref i), w₁) := by
      rw [on, runIn_bind_ok hmember, runIn_bind_ok hregister]
      rfl
    exact ⟨w', (runIn_bind_ok (runIn_discard hon)).trans hrest, hheld'⟩

/-! ## Listeners of an element -/

/-- Listeners that are registered for an element go behind those that it has. -/
theorem exists_runIn_setListeners (hw : w.Hosts d n)
    (h : w₀.Registers own w (n + 1) listeners) (calls : List (String × Value)) :
    ∃ w', ((memoryHost d).setAll (.ref (n + 3)) (calls.map fun c => .listener c.1 c.2)).runIn w =
        (.ok (), w') ∧ w'.Hosts d n ∧
      w₀.Registers own w' (n + 1) (listeners.extendEach calls) := by
  induction calls generalizing w listeners with
  | nil => exact ⟨w, rfl, hw, h⟩
  | cons c calls ih =>
    obtain ⟨w₁, hregister, hheld⟩ := h.exists_register c.1 c.2
    have hadd : (addElementListener (.ref (n + 3)) (.text c.1) c.2).runIn w = (.ok (), w₁) := by
      rw [addElementListener,
        runIn_bind_ok (runIn_member_element hw (v := .ref (n + 1)) (by simp)), hregister]
    obtain ⟨w', hrest, hw', hheld'⟩ := ih (touches_addElementListener _ _ hw hadd).2 hheld
    exact ⟨w', (runIn_bind_ok hadd).trans hrest, hw', hheld'⟩

end Operation

namespace World

variable {w₀ w : World} {own : Nat → Prop} {l d n : Nat} {rows : Entries String Nat}
  {listeners : Entries String (List Value)}

/-- The map of the listeners unfolds to what it keeps. -/
theorem KeepsListeners.shows (h : w.KeepsListeners l rows listeners) (closed : Bool)
    (aside : Value → Term) (depth : Nat) :
    (w.unfoldWith closed aside (depth + 2) (.ref l)).ShowsListeners listeners := by
  rw [unfoldWith, h.map]
  refine ⟨l, _, rfl, ?_⟩
  rw [Entries.stored, List.map_map, List.forall₂_map_left_iff]
  refine h.held.imp fun r row hrow => ⟨?_, r.2, row.2.map (w.unfoldWith closed aside depth), ?_, ?_⟩
  · exact congrArg Term.text hrow.1
  · show w.unfoldWith closed aside (depth + 1) (.ref r.2) = _
    rw [unfoldWith, hrow.2]
    rfl
  · simp [Function.comp_def]

open Operation in
/-- What a node shows for its listeners is registered for its element, event by event. -/
theorem Registers.exists_runIn_addListeners (hw : w.Hosts d n)
    (h : w₀.Registers own w (n + 1) listeners) {t : Term} {given : Entries String (List Value)}
    (ht : t.ShowsListeners given) :
    ∃ w', ((memoryHost d).addListeners (.ref (n + 3)) t).runIn w = (.ok (), w') ∧
      w'.Hosts d n ∧
      w₀.Registers own w' (n + 1) (listeners.extendEach (Entries.itemized given)) := by
  have hsettings : given.flatMap (fun l => l.2.map (Setting.listener l.1)) =
      (Entries.itemized given).map fun c => .listener c.1 c.2 := by
    rw [Entries.itemized, List.map_flatMap]
    simp only [List.map_map, Function.comp_def]
  rw [Host.addListeners_eq _ _ ht, hsettings]
  exact exists_runIn_setListeners hw h _

end World

end Markup
