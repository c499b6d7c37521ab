import Markup.Proofs.Registry

/-!
# First mentions

What a registry holds is decided by the calls that it has seen, those for its initial tags among
them, and of these by the first that mentions a name (`Registry.Reflects`): it enters the name at
the end and fixes the flag.  Later calls find the constructor that is there, so that a constructor
stays what it is and where it is (`World.afterCalls`, `registry_decided_by_first_mentions`).
-/

namespace Markup

namespace Registry

/-- Calls that register names, each with the void flag if it is given. -/
abbrev Mentions : Type := Entries String (Option Bool)

/-- The names in some calls, each once, in the order of their first mention. -/
def mentioned (calls : Mentions) : List String :=
  ((Entries.keys calls).filter (· ≠ "")).eraseDups

/-- The void flag in the first call that mentions a name, or what holds by default. -/
def firstFlag (voids : List String) (calls : Mentions) (name : String) : Bool :=
  (calls.get? name).join.getD (voids.contains name)

/-- The names and flags in some rows are decided by the first mentions in some calls. -/
structure Reflects (rows : Entries String Row) (voids : List String) (calls : Mentions) : Prop where
  names : Entries.keys rows = mentioned calls
  flags : ∀ e ∈ rows, e.2.isVoid = firstFlag voids calls e.1

variable {voids : List String} {calls : Mentions} {rows : Entries String Row} {name : String}
  {flag : Option Bool}

theorem mem_mentioned : name ∈ mentioned calls ↔ name ∈ Entries.keys calls ∧ name ≠ "" := by
  simp [mentioned]

/-- A call adds its name at the end, unless the name is empty or was mentioned before. -/
theorem mentioned_append (calls : Mentions) (name : String) (flag : Option Bool) :
    mentioned (calls ++ [(name, flag)]) =
      if name = "" ∨ name ∈ mentioned calls then mentioned calls
      else mentioned calls ++ [name] := by
  have hkeys : (Entries.keys (calls ++ [(name, flag)])).filter (· ≠ "") =
      (Entries.keys calls).filter (· ≠ "") ++ [name].filter (· ≠ "") := by
    rw [Entries.keys, List.map_append, List.filter_append]
    rfl
  rw [mentioned, hkeys, List.eraseDups_append, ← mentioned]
  by_cases hempty : name = ""
  · simp [hempty, List.removeAll]
  have hnamed : [name].filter (· ≠ "") = [name] := by simpa using hempty
  have hmem : name ∈ mentioned calls ↔ name ∈ (Entries.keys calls).filter (· ≠ "") :=
    List.mem_eraseDups
  have hremove : ∀ seen : List String,
      [name].removeAll seen = if name ∈ seen then [] else [name] := by
    intro seen
    by_cases hseen : name ∈ seen <;> simp [List.removeAll, hseen]
  rw [hnamed, hremove]
  by_cases hold : name ∈ mentioned calls
  · rw [if_pos (hmem.mp hold), if_pos (.inr hold), List.eraseDups_nil, List.append_nil]
  · rw [if_neg (hmem.not.mp hold), if_neg (not_or.mpr ⟨hempty, hold⟩)]
    rfl

/-- Distinct names are mentioned in their order. -/
theorem mentioned_of_nodup (h : (Entries.keys calls).Nodup) (hempty : "" ∉ Entries.keys calls) :
    mentioned calls = Entries.keys calls := by
  induction calls using List.reverseRecOn with
  | nil => rfl
  | append_singleton calls c ih =>
    rw [Entries.keys, List.map_append, List.map_singleton, ← Entries.keys] at h hempty ⊢
    obtain ⟨hcalls, -, hnew⟩ := List.nodup_append.mp h
    rw [List.mem_append, List.mem_singleton, not_or] at hempty
    have hkeys := ih hcalls hempty.1
    have hlast : c.1 ∉ mentioned calls := by
      rw [hkeys]
      exact fun hmem => hnew c.1 hmem c.1 (List.mem_singleton_self _) rfl
    rw [mentioned_append, if_neg (not_or.mpr ⟨Ne.symm hempty.2, hlast⟩), hkeys]

/-- A name that was mentioned without a flag has the flag that holds by default. -/
theorem firstFlag_unflagged (names : List String) (name : String) :
    firstFlag voids (names.map (·, none)) name = voids.contains name := by
  have hnone : (Entries.get? (names.map (·, (none : Option Bool))) name).join = none := by
    cases hget : Entries.get? (names.map (·, (none : Option Bool))) name with
    | none => rfl
    | some given =>
      obtain ⟨n, -, heq⟩ := List.mem_map.mp (Entries.mem_of_get? hget)
      rw [← (Prod.mk.inj heq).2]
      rfl
  rw [firstFlag, hnone]
  rfl

theorem firstFlag_append_of_mem (h : name ∈ Entries.keys calls) (later : Mentions) :
    firstFlag voids (calls ++ later) name = firstFlag voids calls name := by
  obtain ⟨given, hgiven⟩ := Option.isSome_iff_exists.mp (Entries.get?_isSome_iff_mem.mpr h)
  rw [firstFlag, Entries.get?_append, hgiven, Option.some_or, firstFlag, hgiven]

theorem firstFlag_append_of_not_mem (h : name ∉ Entries.keys calls) :
    firstFlag voids (calls ++ [(name, flag)]) name = flag.getD (voids.contains name) := by
  rw [firstFlag, Entries.get?_append_of_not_mem h, Entries.get?_cons,
    if_pos (beq_self_eq_true name)]
  rfl

theorem reflects_nil : Reflects [] voids [] := ⟨rfl, fun _ h => nomatch h⟩

/-- Entering the name of a call keeps the rows in step with the calls. -/
theorem Reflects.enter (h : Reflects rows voids calls) (free : Nat) (name : String)
    (flag : Option Bool) :
    Reflects (enter voids free rows name flag) voids (calls ++ [(name, flag)]) := by
  have hhas : rows.has name = true ↔ name ∈ mentioned calls := by
    rw [Entries.has_iff_mem, h.names]
  have hkept : ∀ e ∈ rows, e.2.isVoid = firstFlag voids (calls ++ [(name, flag)]) e.1 := by
    intro e he
    have hmem : e.1 ∈ mentioned calls := by
      rw [← h.names]
      exact List.mem_map_of_mem he
    rw [h.flags e he, firstFlag_append_of_mem (mem_mentioned.mp hmem).1]
  rw [Registry.enter]
  by_cases hold : name = "" ∨ rows.has name = true
  · rw [if_pos hold]
    exact ⟨by rw [h.names, mentioned_append, if_pos (hold.imp_right hhas.mp)], hkept⟩
  · rw [if_neg hold]
    rw [hhas] at hold
    obtain ⟨hempty, hnew⟩ := not_or.mp hold
    refine ⟨?_, ?_⟩
    · rw [mentioned_append, if_neg hold, ← h.names, Entries.keys, List.map_append]
      rfl
    · rw [List.forall_mem_append, List.forall_mem_singleton]
      refine ⟨hkept, (firstFlag_append_of_not_mem fun hmem => hnew ?_).symm⟩
      exact mem_mentioned.mpr ⟨hmem, hempty⟩

/-- A call leaves the rows that are there. -/
theorem prefix_enter (voids : List String) (free : Nat) (rows : Entries String Row)
    (name : String) (flag : Option Bool) : rows <+: Registry.enter voids free rows name flag := by
  rw [Registry.enter]
  split
  · exact List.prefix_rfl
  · exact List.prefix_append _ _

end Registry

open Registry Operation

/-! ## A registry over many calls -/

namespace World

variable {w w' : World} {id : Nat} {voids : List String} {rows : Entries String Row}
  {before : Mentions}

/-- The world after some calls that register names, whether they succeed or not. -/
def afterCalls (id : Nat) (calls : Mentions) (w : World) : World :=
  calls.foldl (fun w c => ((addElement id (.text c.1) (flagValue c.2)).runIn w).2) w

theorem afterCalls_append (id : Nat) (calls later : Mentions) (w : World) :
    afterCalls id (calls ++ later) w = afterCalls id later (afterCalls id calls w) := by
  rw [afterCalls, List.foldl_append]
  rfl

/-- The rows of a registry, which come from its first mentions in some calls. -/
structure Registered (w : World) (id : Nat) (voids : List String) (rows : Entries String Row)
    (calls : Mentions) : Prop where
  holds : w.HasRegistry id voids rows
  reflects : Reflects rows voids calls

/-- One more call is one more mention, and changes nothing but the registry. -/
theorem Registered.call (h : w.Registered id voids rows before) (name : String)
    (flag : Option Bool) {r : Except Fault Value}
    (hrun : (addElement id (.text name) (flagValue flag)).runIn w = (r, w')) :
    w'.Registered id voids (enter voids w.objects.size rows name flag) (before ++ [(name, flag)]) ∧
      w.ChangesOnly (· = id) w' := by
  obtain ⟨hholds, hchanges⟩ := h.holds.of_addElement name flag hrun
  exact ⟨⟨hholds, h.reflects.enter w.objects.size name flag⟩, hchanges⟩

/-- More calls add rows at the end. -/
theorem Registered.afterCalls (h : w.Registered id voids rows before) (calls : Mentions) :
    ∃ rows', (w.afterCalls id calls).Registered id voids rows' (before ++ calls) ∧
      rows <+: rows' ∧ w.ChangesOnly (· = id) (w.afterCalls id calls) := by
  induction calls generalizing w rows before with
  | nil =>
    rw [List.append_nil]
    exact ⟨rows, h, List.prefix_rfl, .refl _ w⟩
  | cons c calls ih =>
    obtain ⟨hcall, hchanges⟩ := h.call c.1 c.2 rfl
    obtain ⟨rows', hrest, hprefix, hlater⟩ := ih hcall
    rw [List.append_assoc, List.singleton_append] at hrest
    exact ⟨rows', hrest, (prefix_enter ..).trans hprefix, hchanges.trans hlater⟩

/-- A registry has this constructor under a name, and this is its void flag. -/
def HasConstructor (w : World) (id : Nat) (name : String) (k : Nat) (isVoid : Bool) : Prop :=
  (perform id "__getitem__" ⟨[.text name], []⟩).runIn w = (.ok (.ref k), w) ∧
    w.objects[k]? = some (.constructor ⟨.text name, .bool isVoid⟩)

/--
What a registry shows and how it answers the next call, told by the first mentions in the calls
that it has seen.
-/
structure DecidedBy (w : World) (id : Nat) (voids : List String) (calls : Mentions) : Prop where
  iterates : (itemsOf (.ref id)).runIn w = (.ok ((mentioned calls).map .text), w)
  counts : (perform id "__len__" ⟨[], []⟩).runIn w = (.ok (.int (mentioned calls).length), w)
  contains : ∀ name, (perform id "__contains__" ⟨[.text name], []⟩).runIn w =
    (.ok (.bool (decide (name ∈ mentioned calls))), w)
  /-- A registered name keeps its constructor, and a flag that contradicts it is refused. -/
  held : ∀ name ∈ mentioned calls, ∃ k, w.HasConstructor id name k (firstFlag voids calls name) ∧
    ∀ flag, (addElement id (.text name) (flagValue flag)).runIn w =
      (if flag = none ∨ flag = some (firstFlag voids calls name) then .ok (.ref k)
        else .error (.conflictingFlag (.text name) (Text.quote name)
          (.bool (firstFlag voids calls name)) (flagValue flag)), w)
  empty : ∀ flag, (addElement id (.text "") flag).runIn w = (.error .emptyElementName, w)
  /-- A new name gets a constructor that was not there before. -/
  new : ∀ name, name ≠ "" → name ∉ mentioned calls → ∀ flag, ∃ w',
    (addElement id (.text name) (flagValue flag)).runIn w = (.ok (.ref w.objects.size), w') ∧
      w'.HasConstructor id name w.objects.size (flag.getD (voids.contains name))

variable {calls : Mentions} {name : String} {row : Row}

theorem HasRegistry.hasConstructor (h : w.HasRegistry id voids rows)
    (hrow : rows.get? name = some row) : w.HasConstructor id name row.made row.isVoid :=
  ⟨runIn_perform_item h hrow, h.constructors _ (Entries.mem_of_get? hrow)⟩

/-- The row of a name that was mentioned. -/
theorem Registered.exists_row (h : w.Registered id voids rows calls)
    (hname : name ∈ mentioned calls) :
    ∃ k, rows.get? name = some ⟨k, firstFlag voids calls name⟩ := by
  rw [← h.reflects.names, ← Entries.get?_isSome_iff_mem, Option.isSome_iff_exists] at hname
  obtain ⟨row, hrow⟩ := hname
  have hflag := h.reflects.flags _ (Entries.mem_of_get? hrow)
  exact ⟨row.made, by rw [hrow, ← hflag]⟩

theorem Registered.decidedBy (h : w.Registered id voids rows calls) :
    w.DecidedBy id voids calls where
  iterates := by rw [runIn_itemsOf_registry h.holds, h.reflects.names]
  counts := by rw [runIn_perform_len h.holds, ← h.reflects.names, Entries.keys, List.length_map]
  contains name := by
    rw [runIn_perform_contains h.holds, ← h.reflects.names]
    simp only [← Entries.has_iff_mem, Bool.decide_eq_true]
  held name hname := by
    obtain ⟨k, hrow⟩ := h.exists_row hname
    refine ⟨k, h.holds.hasConstructor hrow, ?_⟩
    exact runIn_addElement_held h.holds (mem_mentioned.mp hname).2 hrow
  empty flag := runIn_addElement_empty w id flag
  new name hempty hname flag := by
    have hnew : name ∉ Entries.keys rows := by rwa [h.reflects.names]
    obtain ⟨v, hid, hv⟩ := h.holds.registry
    have hrun := runIn_addElement_new hid hv hempty (Entries.get?_of_not_mem hnew) flag
    have hrow : (enter voids w.objects.size rows name flag).get? name =
        some ⟨w.objects.size, flag.getD (voids.contains name)⟩ := by
      rw [enter, if_neg (by rw [Entries.has_iff_mem]; exact not_or.mpr ⟨hempty, hnew⟩),
        Entries.get?_append_of_not_mem hnew, Entries.get?_cons, if_pos (beq_self_eq_true name)]
    exact ⟨_, hrun, (h.call name flag hrun).1.holds.hasConstructor hrow⟩

/-- A constructor stays under its name as it is, whatever calls follow. -/
theorem Registered.exists_kept (h : w.Registered id voids rows calls)
    (hname : name ∈ mentioned calls) : ∃ k, ∀ later,
      (w.afterCalls id later).HasConstructor id name k (firstFlag voids calls name) := by
  obtain ⟨k, hrow⟩ := h.exists_row hname
  refine ⟨k, fun later => ?_⟩
  obtain ⟨rows', hrest, ⟨more, rfl⟩, -⟩ := h.afterCalls later
  have hkept : Entries.get? (rows ++ more) name = some ⟨k, firstFlag voids calls name⟩ := by
    rw [Entries.get?_append, hrow, Option.some_or]
  exact hrest.holds.hasConstructor hkept

end World

/-! ## A new registry -/

namespace Operation

open World

variable {w w' : World} {id : Nat} {voids : List String} {rows : Entries String Row}
  {calls : Mentions}

/-- Registers a tag, without a flag of its own. -/
def enrol (id : Nat) (tag : Value) : Operation Unit := discard <| addElement id tag .none

/-- A name that is not empty is registered without a flag. -/
theorem runIn_enrol (h : w.HasRegistry id voids rows) {name : String} (hname : name ≠ "") :
    (enrol id (.text name)).runIn w = (.ok (), w.afterCalls id [(name, none)]) := by
  have hok : ∃ k, (addElement id (.text name) (flagValue none)).runIn w =
      (.ok k, w.afterCalls id [(name, none)]) := by
    cases hrow : rows.get? name with
    | some row =>
      refine ⟨.ref row.made, runIn_of_fst ?_⟩
      rw [runIn_addElement_held h hname hrow, if_pos (.inl rfl)]
    | none =>
      obtain ⟨v, hid, hv⟩ := h.registry
      exact ⟨_, runIn_of_fst (by rw [runIn_addElement_new hid hv hname hrow])⟩
  obtain ⟨k, hrun⟩ := hok
  exact runIn_discard hrun

/-- Tags that are not empty are registered in order. -/
theorem runIn_mapM_enrol (h : w.Registered id voids rows calls) {names : List String}
    (hnames : "" ∉ names) : ∃ us, ((names.map .text).mapM (enrol id)).runIn w =
      (.ok us, w.afterCalls id (names.map (·, none))) := by
  induction names generalizing w rows calls with
  | nil => exact ⟨[], rfl⟩
  | cons name names ih =>
    rw [List.mem_cons, not_or] at hnames
    obtain ⟨us, hrest⟩ := ih (h.call name none rfl).1 hnames.2
    refine ⟨() :: us, ?_⟩
    rw [List.map_cons, List.mapM_cons, runIn_bind_ok (runIn_enrol h.holds (Ne.symm hnames.1))]
    exact runIn_bind_ok hrest

/-- The first tag that is empty is refused. -/
theorem runIn_mapM_enrol_empty (h : w.Registered id voids rows calls) {names : List String}
    (hnames : "" ∈ names) : ∃ w', ((names.map .text).mapM (enrol id)).runIn w =
      (.error .emptyElementName, w') := by
  induction names generalizing w rows calls with
  | nil => cases hnames
  | cons name names ih =>
    rw [List.map_cons, List.mapM_cons]
    by_cases hname : name = ""
    · rw [hname]
      exact ⟨w, runIn_bind_error (runIn_bind_error (runIn_addElement_empty w id .none))⟩
    · obtain ⟨w', hrest⟩ := ih (h.call name none rfl).1
        ((List.mem_cons.mp hnames).resolve_left (Ne.symm hname))
      rw [runIn_bind_ok (runIn_enrol h.holds hname)]
      exact ⟨w', runIn_bind_error hrest⟩

/-- The world in which a registry was made that has no tags yet. -/
theorem registered_nil {v : Nat} (h : w.objects[v]? = some (.frozenSet (voids.map .text))) :
    (w.add (.registry (ofRows v []))).Registered w.objects.size voids [] [] where
  holds := ⟨⟨v, get_add_new, get_add h⟩, fun _ he => (nomatch he), List.nodup_nil⟩
  reflects := reflects_nil

theorem runIn_makeRegistry (tags : Value) (v : Nat) (w : World) :
    (makeRegistry tags (.ref v)).runIn w =
      (eachItem (enrol w.objects.size) tags >>= fun _ => pure (.ref w.objects.size)).runIn
        (w.add (.registry (ofRows v []))) := by
  rw [makeRegistry, runIn_bind_ok (runIn_allocate _ w)]
  rfl

end Operation

/-! ## The main result -/

open World in
/--
A registry is made unless a tag is empty, and whatever calls follow, it is decided by the first
mentions in its tags and the calls; the constructors that it has stay what they are.
-/
theorem registry_decided_by_first_mentions {w : World} {tags : Value} {v : Nat}
    {names voids : List String} (htags : (itemsOf tags).runIn w = (.ok (names.map .text), w))
    (hvoids : w.objects[v]? = some (.frozenSet (voids.map .text))) :
    ("" ∈ names → ((makeRegistry tags (.ref v)).runIn w).1 = .error .emptyElementName) ∧
    ("" ∉ names → ∃ w₀, (makeRegistry tags (.ref v)).runIn w = (.ok (.ref w.objects.size), w₀) ∧
      ∀ calls : Mentions,
        (w₀.afterCalls w.objects.size calls).DecidedBy w.objects.size voids
          (names.map (·, none) ++ calls) ∧
        ∀ name ∈ mentioned (names.map (·, none) ++ calls), ∃ k, ∀ later,
          (w₀.afterCalls w.objects.size (calls ++ later)).HasConstructor w.objects.size name k
            (firstFlag voids (names.map (·, none) ++ calls) name)) := by
  have hstart := registered_nil hvoids
  have hretains : w.Retains 0 (w.add (.registry (ofRows v []))) := changesOnly_add
  have hgiven := runIn_itemsOf_retained htags hretains
  have heach : (eachItem (enrol w.objects.size) tags).runIn (w.add (.registry (ofRows v []))) =
      (discard ((names.map .text).mapM (enrol w.objects.size)) : Operation Unit).runIn
        (w.add (.registry (ofRows v []))) := by
    refine runIn_eachItem hgiven fun us w' hrun => ?_
    by_cases hempty : "" ∈ names
    · obtain ⟨w'', hfails⟩ := runIn_mapM_enrol_empty hstart hempty
      rw [hfails] at hrun
      cases hrun
    · obtain ⟨us', hok⟩ := runIn_mapM_enrol hstart hempty
      rw [hok] at hrun
      cases hrun
      obtain ⟨rows, -, -, hchanges⟩ := hstart.afterCalls (names.map (·, none))
      exact runIn_itemsOf_retained htags (hretains.later hchanges fun i hi => Nat.le_of_eq hi.symm)
  rw [runIn_makeRegistry]
  constructor
  · intro hempty
    obtain ⟨w', hrun⟩ := runIn_mapM_enrol_empty hstart hempty
    rw [runIn_bind_error (heach.trans (runIn_bind_error hrun))]
  · intro hempty
    obtain ⟨us, hrun⟩ := runIn_mapM_enrol hstart hempty
    refine ⟨_, runIn_bind_ok (heach.trans (runIn_discard hrun)), fun calls => ?_⟩
    obtain ⟨rows, hnames, -, -⟩ := hstart.afterCalls (names.map (·, none))
    obtain ⟨rows', hcalls, -, -⟩ := hnames.afterCalls calls
    rw [List.nil_append] at hcalls
    refine ⟨hcalls.decidedBy, fun name hname => ?_⟩
    obtain ⟨k, hkept⟩ := hcalls.exists_kept hname
    refine ⟨k, fun later => ?_⟩
    rw [afterCalls_append]
    exact hkept later

/-! ### A registry with a tag that is given twice -/

/-- A world with a list of tags, of which one is there twice and one is void. -/
def World.withTags : World := World.initial.add (.list [.text "p", .text "br", .text "p"])

/-- A name registered as void keeps that flag, and a call that contradicts it is refused. -/
theorem registry_decided_by_first_mentions_twice : ∃ w₀ k,
    (makeRegistry (.ref 144) (.ref World.defaultVoidTags)).runIn .withTags =
      (.ok (.ref 145), w₀) ∧
    (itemsOf (.ref 145)).runIn (w₀.afterCalls 145 [("x", some true), ("p", some true)]) =
      (.ok [.text "p", .text "br", .text "x"],
        w₀.afterCalls 145 [("x", some true), ("p", some true)]) ∧
    (addElement 145 (.text "x") (.bool false)).runIn
        (w₀.afterCalls 145 [("x", some true), ("p", some true)]) =
      (.error (.conflictingFlag (.text "x") (Text.quote "x") (.bool true) (.bool false)),
        w₀.afterCalls 145 [("x", some true), ("p", some true)]) ∧
    (w₀.afterCalls 145 [("x", some true), ("p", some true), ("x", none)]).HasConstructor 145 "x" k
      true := by
  have hsize : World.withTags.objects.size = 145 := by decide +kernel
  have htags : (itemsOf (.ref 144)).runIn .withTags =
      (.ok (["p", "br", "p"].map .text), .withTags) :=
    runIn_itemsOf (by decide +kernel)
  have hvoids : World.withTags.objects[World.defaultVoidTags]? =
      some (.frozenSet (Vocabulary.voidTags.map .text)) := by decide +kernel
  have hmentioned : mentioned (["p", "br", "p"].map (·, none) ++
      [("x", some true), ("p", some true)]) = ["p", "br", "x"] := by decide +kernel
  have hflag : firstFlag Vocabulary.voidTags (["p", "br", "p"].map (·, none) ++
      [("x", some true), ("p", some true)]) "x" = true := by decide +kernel
  obtain ⟨w₀, hmade, hdecided⟩ := (registry_decided_by_first_mentions htags hvoids).2 (by decide)
  rw [hsize] at hmade hdecided
  obtain ⟨hshown, hkept⟩ := hdecided [("x", some true), ("p", some true)]
  obtain ⟨k, hk⟩ := hkept "x" (by rw [hmentioned]; decide)
  obtain ⟨j, -, hheld⟩ := hshown.held "x" (by rw [hmentioned]; decide)
  have hiterates := hshown.iterates
  rw [hmentioned] at hiterates
  rw [hflag] at hk hheld
  exact ⟨w₀, k, hmade, hiterates, hheld (some false), hk [("x", none)]⟩

end Markup
