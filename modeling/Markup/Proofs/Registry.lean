import Markup.Catalogue
import Markup.Proofs.Entries
import Markup.Proofs.Node.Frozen

/-!
# What a registry holds

A registry of texts holds a row for each name: its constructor and its void flag
(`World.HasRegistry`).  A call that registers a name is refused, or is answered from the row of the
name, or adds a row (`runIn_addElement_empty`, `runIn_addElement_held`, `runIn_addElement_new`); in
any case it leaves the rows that are there (`World.HasRegistry.exists_addElement`), and no object
but the registry is changed.
-/

namespace Markup

namespace Registry

/-- What is registered under a name. -/
structure Row where
  /-- The number of the constructor. -/
  made : Nat
  isVoid : Bool

/-- The value of a void flag, which need not be given. -/
def flagValue : Option Bool → Value
  | none => .none
  | some b => .bool b

/-- The rows after a call that registers a name, for which an object with this number is free. -/
def enter (voids : List String) (free : Nat) (rows : Entries String Row) (name : String)
    (flag : Option Bool) : Entries String Row :=
  if name = "" ∨ rows.has name then rows
  else rows ++ [(name, ⟨free, flag.getD (voids.contains name)⟩)]

/-- The registry that holds some rows and to which nothing was assigned. -/
def ofRows (voidTags : Nat) (rows : Entries String Row) : Registry Value :=
  ⟨.ref voidTags, rows.stored .text (.ref ·.made), []⟩

end Registry

open Registry

namespace World

/-- A registry holds these rows, and holds these texts void by default. -/
structure HasRegistry (w : World) (id : Nat) (voids : List String) (rows : Entries String Row) :
    Prop where
  registry : ∃ v, w.objects[id]? = some (.registry (ofRows v rows)) ∧
    w.objects[v]? = some (.frozenSet (voids.map .text))
  constructors : ∀ e ∈ rows,
    w.objects[e.2.made]? = some (.constructor ⟨.text e.1, .bool e.2.isVoid⟩)
  nodup : (Entries.keys rows).Nodup

theorem HasRegistry.made_ne {w : World} {id : Nat} {voids : List String} {rows : Entries String Row}
    (h : w.HasRegistry id voids rows) : ∀ e ∈ rows, e.2.made ≠ id := by
  rintro e he heq
  obtain ⟨v, hid, -⟩ := h.registry
  have hmade := h.constructors e he
  rw [heq, hid] at hmade
  cases hmade

end World

open World

variable {w w' : World} {id v : Nat} {voids : List String} {rows : Entries String Row}
  {name : String} {row : Row} {flag : Option Bool}

namespace Operation

/-! ## The parts of a call -/

theorem runIn_registry {r : Registry Value} (h : w.objects[id]? = some (.registry r)) :
    (registry (.ref id)).runIn w = (.ok (id, r), w) := by
  rw [registry, runIn_bind_ok (runIn_objectOf h)]
  rfl

theorem runIn_constructor {c : Constructor Value} (h : w.objects[id]? = some (.constructor c)) :
    (constructor (.ref id)).runIn w = (.ok c, w) := by
  rw [constructor, runIn_bind_ok (runIn_objectOf h)]
  rfl

theorem runIn_constructorOf? (w : World) (v : Nat) (rows : Entries String Row) (name : String) :
    (constructorOf? (ofRows v rows) (.text name)).runIn w =
      (.ok ((rows.get? name).map (.ref ·.made)), w) := by
  rw [constructorOf?, runIn_bind_ok (runIn_readKey name w), runIn_bind_ok (runIn_world w),
    runIn_pure, ← Entries.get?_stored, ← Entries.readKeys_stored w]
  rfl

/-- A name that is not registered is void if it is one of the void tags. -/
theorem runIn_voidByDefault (h : w.objects[v]? = some (.frozenSet (voids.map .text)))
    (rows : Entries String Row) (name : String) :
    (voidByDefault (ofRows v rows) (.text name)).runIn w =
      (.ok (.bool (voids.contains name)), w) := by
  have hcontains : (w.read (.ref v)).contains (.text name) = .ok (voids.contains name) := by
    rw [read_ref h]
    show Except.ok ((((voids.map Value.text).map _).any _ : Bool)) = _
    simp [List.any_map, Function.comp_def, List.any_beq']
  rw [voidByDefault, runIn_bind_ok (runIn_read _ w), runIn_bind_ok (runIn_read _ w)]
  show (ofExcept ((w.read (.ref v)).contains (.text name)) >>= _).runIn w = _
  rw [hcontains, runIn_bind_ok (runIn_ofExcept _ w)]
  rfl

/-! ## A call that registers a name -/

theorem runIn_addElement_empty (w : World) (id : Nat) (flag : Value) :
    (addElement id (.text "") flag).runIn w = (.error .emptyElementName, w) := by
  rw [addElement, runIn_bind_ok (runIn_read _ w)]
  rfl

theorem truthy_read_text (w : World) (h : name ≠ "") : (w.read (.text name)).truthy = true := by
  show (name != "") = true
  simpa using h

theorem flagValue_some_ne (b : Bool) : flagValue (some b) ≠ .none := by
  intro h
  cases h

/-- A name that is registered keeps its constructor, and a flag has to agree with it. -/
theorem runIn_addElement_held (h : w.HasRegistry id voids rows) (hname : name ≠ "")
    (hrow : rows.get? name = some row) (flag : Option Bool) :
    (addElement id (.text name) (flagValue flag)).runIn w =
      (if flag = none ∨ flag = some row.isVoid then .ok (.ref row.made)
        else .error (.conflictingFlag (.text name) (Text.quote name) (.bool row.isVoid)
          (flagValue flag)), w) := by
  obtain ⟨v, hid, -⟩ := h.registry
  have hmade := h.constructors _ (Entries.mem_of_get? hrow)
  have hfound : (constructorOf? (ofRows v rows) (.text name)).runIn w =
      (.ok (some (.ref row.made)), w) := by
    rw [runIn_constructorOf?, hrow]
    rfl
  rw [addElement, runIn_bind_ok (runIn_read _ w), if_pos (truthy_read_text w hname)]
  dsimp only
  rw [runIn_bind_ok (runIn_registry hid)]
  dsimp only
  rw [runIn_bind_ok hfound]
  dsimp only
  rw [runIn_bind_ok (runIn_constructor hmade)]
  cases flag with
  | none => rfl
  | some b =>
    have heq : Term.eq (w.read (flagValue (some b))) (w.read (.bool row.isVoid)) =
        (b == row.isVoid) := by
      cases b <;> cases row.isVoid <;>
        simp [World.read, flagValue, Term.eq, Atom.eq, Atom.toInt?]
    rw [if_neg (flagValue_some_ne b), runIn_bind_ok (runIn_read _ w),
      runIn_bind_ok (runIn_read _ w), heq]
    by_cases hb : b = row.isVoid
    · rw [if_pos (by simpa using hb), if_pos (.inr (congrArg some hb)), runIn_pure]
    · rw [if_neg (by simpa using hb), if_neg (by simpa using hb),
        runIn_bind_ok (runIn_read _ w)]
      rfl

/-- A new name gets a new constructor, which is void as the flag says, or by default. -/
theorem runIn_addElement_new (hid : w.objects[id]? = some (.registry (ofRows v rows)))
    (hv : w.objects[v]? = some (.frozenSet (voids.map .text))) (hname : name ≠ "")
    (hrow : rows.get? name = none) (flag : Option Bool) :
    (addElement id (.text name) (flagValue flag)).runIn w = (.ok (.ref w.objects.size),
      (w.add (.constructor ⟨.text name, .bool (flag.getD (voids.contains name))⟩)).replace id
        (.registry (ofRows v (rows ++
          [(name, ⟨w.objects.size, flag.getD (voids.contains name)⟩)])))) := by
  have hfound : (constructorOf? (ofRows v rows) (.text name)).runIn w = (.ok none, w) := by
    rw [runIn_constructorOf?, hrow]
    rfl
  have hinsert : ∀ b : Bool, (ofRows v rows).insert (.text name) (.ref w.objects.size) =
      ofRows v (rows ++ [(name, ⟨w.objects.size, b⟩)]) := by
    intro b
    simp [Registry.insert, ofRows, Entries.stored]
  rw [addElement, runIn_bind_ok (runIn_read _ w), if_pos (truthy_read_text w hname)]
  dsimp only
  rw [runIn_bind_ok (runIn_registry hid)]
  dsimp only
  rw [runIn_bind_ok hfound]
  dsimp only
  cases flag with
  | none =>
    rw [if_pos (show flagValue none = .none from rfl),
      runIn_bind_ok (runIn_voidByDefault hv rows name),
      runIn_bind_ok (runIn_make' _ w), hinsert (voids.contains name)]
    rfl
  | some b =>
    rw [if_neg (flagValue_some_ne b), runIn_bind_ok (runIn_pure _ w),
      runIn_bind_ok (runIn_make' _ w), hinsert b]
    rfl

end Operation

namespace World

open Operation

/-- Whatever a call does, it enters the name, and nothing but the registry is changed. -/
theorem HasRegistry.of_addElement (h : w.HasRegistry id voids rows) (name : String)
    (flag : Option Bool) {r : Except Fault Value}
    (hrun : (addElement id (.text name) (flagValue flag)).runIn w = (r, w')) :
    w'.HasRegistry id voids (enter voids w.objects.size rows name flag) ∧
      w.ChangesOnly (· = id) w' := by
  by_cases hname : name = ""
  · rw [hname, runIn_addElement_empty] at hrun
    cases hrun
    rw [enter, if_pos (.inl hname)]
    exact ⟨h, .refl _ w⟩
  cases hrow : rows.get? name with
  | some row =>
    have hheld : rows.has name = true :=
      Entries.has_iff_mem.mpr (Entries.get?_isSome_iff_mem.mp (by rw [hrow]; rfl))
    rw [runIn_addElement_held h hname hrow] at hrun
    cases hrun
    rw [enter, if_pos (.inr hheld)]
    exact ⟨h, .refl _ w⟩
  | none =>
    have hnew := Entries.not_mem_of_get? hrow
    obtain ⟨v, hid, hv⟩ := h.registry
    rw [runIn_addElement_new hid hv hname hrow] at hrun
    cases hrun
    have hlt := lt_size hid
    have hne : v ≠ id := by
      rintro rfl
      exact nomatch hid.symm.trans hv
    have hchanges : w.ChangesOnly (· = id) ((w.add (.constructor
        ⟨.text name, .bool (flag.getD (voids.contains name))⟩)).replace id (.registry (ofRows v
          (rows ++ [(name, ⟨w.objects.size, flag.getD (voids.contains name)⟩)])))) :=
      changesOnly_add.trans (changesOnly_replace rfl)
    rw [enter, if_neg (by rw [Entries.has_iff_mem]; exact not_or.mpr ⟨hname, hnew⟩)]
    refine ⟨⟨⟨v, get_replace_self (by rw [size_add]; omega), hchanges.spared hv hne⟩, ?_, ?_⟩,
      hchanges⟩
    · rw [List.forall_mem_append, List.forall_mem_singleton]
      refine ⟨fun e he => hchanges.spared (h.constructors e he) (h.made_ne e he), ?_⟩
      rw [get_replace_ne (Nat.ne_of_gt hlt), get_add_new]
    · rw [Entries.keys, List.map_append, List.map_singleton]
      exact h.nodup.append (List.nodup_singleton name) (by simpa using hnew)

end World

namespace Operation

/-! ## What a registry shows -/

theorem read_registry (h : w.objects[id]? = some (.registry (ofRows v rows))) :
    ∃ r : Registry Term, w.read (.ref id) = .object id (.registry r) ∧
      ∃ f : Row → Term, r.constructors = rows.stored .text f ∧
        ∀ row, (f row).toValue = .ref row.made := by
  refine ⟨_, read_ref h, fun row => w.glance (.ref row.made), ?_, fun row => ?_⟩
  · simp [Registry.map, ofRows, Entries.stored, Function.comp_def]
  · simp [World.glance]

theorem runIn_itemsOf_registry (h : w.HasRegistry id voids rows) :
    (itemsOf (.ref id)).runIn w = (.ok ((Entries.keys rows).map .text), w) := by
  obtain ⟨v, hid, -⟩ := h.registry
  obtain ⟨r, hread, f, hr, -⟩ := read_registry hid
  rw [runIn_itemsOf_iff, hread]
  simp [Term.items?, hr, Entries.stored, values, Entries.keys, Function.comp_def]

/-- A skill with a single parameter is called with it. -/
theorem runIn_withOne (parameter : String) (a : Value) (k : Value → Operation Value) (w : World) :
    (withOne parameter ⟨[a], []⟩ k).runIn w = (k a).runIn w := by
  have hfill : Call.fill [(parameter, none)] ⟨[a], []⟩ = .ok [a] := rfl
  rw [withOne, hfill, runIn_bind_ok (runIn_ofExcept _ w)]

theorem runIn_perform_len (h : w.HasRegistry id voids rows) :
    (perform id "__len__" ⟨[], []⟩).runIn w = (.ok (.int rows.length), w) := by
  obtain ⟨v, hid, -⟩ := h.registry
  rw [perform, runIn_bind_ok (runIn_registry hid)]
  show (Except.ok (Value.int _), w) = _
  simp [ofRows, Entries.stored]

theorem runIn_perform_contains (h : w.HasRegistry id voids rows) (name : String) :
    (perform id "__contains__" ⟨[.text name], []⟩).runIn w = (.ok (.bool (rows.has name)), w) := by
  obtain ⟨v, hid, -⟩ := h.registry
  obtain ⟨r, hread, f, hr, -⟩ := read_registry hid
  have hcontains : (w.read (.ref id)).contains (w.read (.text name)) = .ok (rows.has name) := by
    rw [hread]
    show Except.ok (Entries.has r.constructors _) = _
    rw [hr]
    simp [Entries.has, Entries.stored, List.any_map, Function.comp_def, World.read]
  rw [perform, runIn_bind_ok (runIn_registry hid)]
  show (withOne "name" ⟨[.text name], []⟩ _).runIn w = _
  rw [runIn_withOne]
  rw [runIn_bind_ok (runIn_read _ w), runIn_bind_ok (runIn_read _ w), hcontains]
  rfl

theorem runIn_perform_item (h : w.HasRegistry id voids rows) (hrow : rows.get? name = some row) :
    (perform id "__getitem__" ⟨[.text name], []⟩).runIn w = (.ok (.ref row.made), w) := by
  obtain ⟨v, hid, -⟩ := h.registry
  obtain ⟨r, hread, f, hr, hf⟩ := read_registry hid
  have hitem : (w.read (.ref id)).item (w.read (.text name)) = .ok (f row) := by
    rw [hread]
    show Term.underKey r.constructors (w.read (.text name)) = _
    have hkey : (w.read (.text name)).asKey = .ok (.text name) := rfl
    rw [Term.underKey, hkey, ok_bind, hr, Entries.get?_stored, hrow]
    rfl
  rw [perform, runIn_bind_ok (runIn_registry hid)]
  show (withOne "name" ⟨[.text name], []⟩ _).runIn w = _
  rw [runIn_withOne]
  rw [runIn_bind_ok (runIn_read _ w), runIn_bind_ok (runIn_read _ w), hitem]
  show (Except.ok (f row).toValue, w) = _
  rw [hf]

end Operation

end Markup
