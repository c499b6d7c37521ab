import Markup.Proofs.Registry.Mentions

/-!
# The listing of the default registry

A tag is listed under its name with underscores for hyphens, and with one more at the end if that is
a reserved word.  Looking a listed name up goes the other way: one underscore at the end is dropped
and the others are hyphens.  The two agree on a tag exactly if it has no underscore, does not start
or end with a hyphen, and is not spelled like a member of the registry itself
(`Registry.Resolvable`, `resolves_iff`).  Whatever was registered, the listing leads back to the
tags of this kind and to no others.
-/

namespace Markup

namespace Registry

/-! ## Spellings -/

/-- A name with underscores for hyphens. -/
def underscored (tag : String) : String :=
  String.ofList (tag.toList.map fun c => if c = '-' then '_' else c)

/-- The members that a registry has for itself and that do not start with an underscore. -/
def ownMembers : List String := ["void_tags", "add_element", "is_void", "create"]

/-- A tag whose listed name is read as the tag again. -/
structure Resolvable (tag : String) : Prop where
  plain : '_' ∉ tag.toList
  start : tag.toList.head? ≠ some '-'
  stop : tag.toList.getLast? ≠ some '-'
  free : underscored tag ∉ ownMembers

variable {tag name : String}

/-- Replacing a character that does not occur changes nothing. -/
theorem map_replace_of_not_mem {a b : Char} {cs : List Char} (h : a ∉ cs) :
    (cs.map fun c => if c = a then b else c) = cs := by
  conv_rhs => rw [← List.map_id cs]
  refine List.map_congr_left fun c hc => if_neg ?_
  rintro rfl
  exact h hc

theorem toList_underscored (tag : String) :
    (underscored tag).toList = tag.toList.map fun c => if c = '-' then '_' else c :=
  String.toList_ofList

/-- Underscores come from underscores and hyphens. -/
theorem mem_underscored : '_' ∈ (underscored tag).toList ↔ '_' ∈ tag.toList ∨ '-' ∈ tag.toList := by
  rw [toList_underscored, List.mem_map]
  constructor
  · rintro ⟨c, hc, heq⟩
    split at heq
    · next hhyphen => exact .inr (hhyphen ▸ hc)
    · exact .inl (heq ▸ hc)
  · rintro (h | h)
    · exact ⟨'_', h, rfl⟩
    · exact ⟨'-', h, rfl⟩

theorem underscored_of_not_mem (h : '-' ∉ tag.toList) : underscored tag = tag := by
  rw [underscored, map_replace_of_not_mem h, String.ofList_toList]

/-- A key that is read from a keyword has hyphens only. -/
theorem not_mem_keyOfKeyword (name : String) :
    '_' ∉ (Vocabulary.keyOfKeyword name).toList := by
  rw [Vocabulary.keyOfKeyword, String.toList_ofList, List.mem_map]
  rintro ⟨c, -, heq⟩
  split at heq
  · cases heq
  · next hne => exact hne heq

/-- Hyphens are read back where there was no underscore. -/
theorem map_hyphens (h : '_' ∉ tag.toList) :
    (underscored tag).toList.map (fun c => if c = '_' then '-' else c) = tag.toList := by
  rw [toList_underscored, List.map_map]
  conv_rhs => rw [← List.map_id tag.toList]
  refine List.map_congr_left fun c hc => ?_
  have hne : c ≠ '_' := fun heq => h (heq ▸ hc)
  by_cases hhyphen : c = '-' <;> simp [hhyphen, hne]

theorem keyOfKeyword_underscored (h : '_' ∉ tag.toList) (hstop : tag.toList.getLast? ≠ some '-') :
    Vocabulary.keyOfKeyword (underscored tag) = tag := by
  have hlast : (underscored tag).toList.getLast? ≠ some '_' := by
    rw [toList_underscored, List.getLast?_map, ne_eq, Option.map_eq_some_iff]
    rintro ⟨c, hc, heq⟩
    split at heq
    · next hhyphen => exact hstop (hhyphen ▸ hc)
    · exact h (heq ▸ List.mem_of_getLast? hc)
  rw [Vocabulary.keyOfKeyword, if_neg hlast, map_hyphens h, String.ofList_toList]

theorem keyOfKeyword_marked (h : '_' ∉ tag.toList) :
    Vocabulary.keyOfKeyword (tag ++ "_") = tag := by
  have hchars : (tag ++ "_").toList = tag.toList ++ ['_'] := String.toList_append
  rw [Vocabulary.keyOfKeyword, hchars, List.getLast?_concat, if_pos rfl, List.dropLast_concat,
    map_replace_of_not_mem h, String.ofList_toList]

/-- A name that ends with an underscore is read as a shorter key. -/
theorem getLast?_ne_of_keyOfKeyword (h : Vocabulary.keyOfKeyword (underscored tag) = tag) :
    (underscored tag).toList.getLast? ≠ some '_' := by
  intro hlast
  have hlength : (Vocabulary.keyOfKeyword (underscored tag)).toList.length =
      (underscored tag).toList.length - 1 := by
    rw [Vocabulary.keyOfKeyword, if_pos hlast, String.toList_ofList, List.length_map,
      List.length_dropLast]
  have hpos : 0 < (underscored tag).toList.length :=
    List.length_pos_of_mem (List.mem_of_getLast? hlast)
  rw [h, toList_underscored, List.length_map] at hlength
  rw [toList_underscored, List.length_map] at hpos
  omega

/-- The name of a tag as a member: with underscores, and one more after a reserved word. -/
def memberName (tag : String) : String :=
  if Text.isReserved (underscored tag) then underscored tag ++ "_" else underscored tag

/-- A tag that is listed is listed under its name as a member. -/
theorem eq_memberName_of_exportName? (h : exportName? tag = some name) : name = memberName tag := by
  have hif : (if Text.isIdentifier (underscored tag) then some (memberName tag) else none) =
      some name := h
  split at hif
  · exact (Option.some.inj hif).symm
  · cases hif

/-- A reserved word is spelled without underscores and is no member of a registry. -/
theorem reserved_spelling {word : String} (h : word ∈ Text.reservedWords) :
    '_' ∉ word.toList ∧ (word ++ "_").toList.head? ≠ some '_' ∧
      word ++ "_" ∉ ownMembers ∧ word ∉ ownMembers := by
  have hall : ∀ word ∈ Text.reservedWords, '_' ∉ word.toList ∧
      (word ++ "_").toList.head? ≠ some '_' ∧ word ++ "_" ∉ ownMembers ∧
      word ∉ ownMembers := by
    decide +kernel
  exact hall word h

/-- The name of a tag as a member is one of the registry's own exactly if its spelling is. -/
theorem memberName_mem_ownMembers : memberName tag ∈ ownMembers ↔ underscored tag ∈ ownMembers := by
  rw [memberName]
  split
  · next hreserved =>
    obtain ⟨-, -, hmarked, hfree⟩ := reserved_spelling (by simpa [Text.isReserved] using hreserved)
    exact iff_of_false hmarked hfree
  · rfl

/-- The name of a tag as a member is read as the tag exactly if the tag is resolvable. -/
theorem memberName_resolves_iff (tag : String) :
    ((memberName tag).toList.head? ≠ some '_' ∧ memberName tag ∉ ownMembers ∧
      Vocabulary.keyOfKeyword (memberName tag) = tag) ↔ Resolvable tag := by
  rw [memberName]
  split
  · next hreserved =>
    obtain ⟨hplain, hhead, hmarked, hfree⟩ :=
      reserved_spelling (by simpa [Text.isReserved] using hreserved)
    obtain ⟨hunder, hhyphen⟩ := not_or.mp (mem_underscored.not.mp hplain)
    have hsame := underscored_of_not_mem hhyphen
    rw [hsame] at hhead hmarked hfree ⊢
    refine iff_of_true ⟨hhead, hmarked, keyOfKeyword_marked hunder⟩ ⟨hunder, ?_, ?_, ?_⟩
    · exact fun hstart => hhyphen (List.mem_of_head? hstart)
    · exact fun hstop => hhyphen (List.mem_of_getLast? hstop)
    · rwa [hsame]
  · constructor
    · rintro ⟨hhead, hown, hkey⟩
      have hplain : '_' ∉ tag.toList := hkey ▸ not_mem_keyOfKeyword _
      have hlast := getLast?_ne_of_keyOfKeyword hkey
      refine ⟨hplain, ?_, ?_, hown⟩
      · intro hstart
        rw [toList_underscored, List.head?_map, hstart] at hhead
        exact hhead rfl
      · intro hstop
        rw [toList_underscored, List.getLast?_map, hstop] at hlast
        exact hlast rfl
    · rintro ⟨hplain, hstart, hstop, hfree⟩
      refine ⟨?_, hfree, keyOfKeyword_underscored hplain hstop⟩
      rw [toList_underscored, List.head?_map, ne_eq, Option.map_eq_some_iff]
      rintro ⟨c, hc, heq⟩
      split at heq
      · next hhyphen => exact hstart (hhyphen ▸ hc)
      · exact hplain (heq ▸ List.mem_of_head? hc)

/-- The listed name of a tag is read as the tag exactly if the tag is of the kind that allows it. -/
theorem resolves_iff (h : exportName? tag = some name) :
    (name.toList.head? ≠ some '_' ∧ name ∉ ownMembers ∧ Vocabulary.keyOfKeyword name = tag) ↔
      Resolvable tag := by
  rw [eq_memberName_of_exportName? h, memberName_resolves_iff]

end Registry

open Registry World

variable {w w' : World} {voids : List String} {rows : Entries String Row} {name : String}
  {row : Row}

/-! ## Looking a listed name up -/

theorem Entries.get?_stored_value {β γ : Type} {m : Entries String β} {f : β → γ} {k : String} :
    (m.stored Value.text f).get? (.text k) = (m.get? k).map f := by
  induction m with
  | nil => rfl
  | cons e m ih =>
    show Entries.get? ((Value.text e.1, f e.2) :: stored m Value.text f) _ = _
    rw [get?_cons, get?_cons, ih]
    by_cases hk : e.1 = k <;> simp [hk]

namespace Operation

theorem runIn_passedName_ok {found : Found Value}
    (h : (find (.ref World.defaultRegistry) name).runIn w = (.ok found, w')) :
    (passedName name).runIn w = (.ok found, w') := by
  rw [passedName]
  refine (runIn_tryCatch _ _ w).trans ?_
  rw [h]

theorem find_of_passedName {found : Found Value}
    (h : (passedName name).runIn w = (.ok found, w')) :
    (find (.ref World.defaultRegistry) name).runIn w = (.ok found, w') := by
  have hcaught := (runIn_tryCatch _ _ w).symm.trans h
  rcases hfind : (find (.ref World.defaultRegistry) name).runIn w with ⟨r, w₁⟩
  rw [hfind] at hcaught
  cases r with
  | ok found' => exact hcaught
  | error f =>
    dsimp only at hcaught
    split at hcaught <;> cases hcaught

/-- The element that a registry has under a name that is not hidden. -/
theorem element_ofRows (v : Nat) (rows : Entries String Row)
    (hhead : name.toList.head? ≠ some '_') :
    (ofRows v rows).element .atom name = match rows.get? (Vocabulary.keyOfKeyword name) with
      | some row => .ok (.ref row.made)
      | none => .error (.noSuchElement name) := by
  have hget : Entries.get? (ofRows v rows).constructors
      (.atom (.text (Vocabulary.keyOfKeyword name))) =
      (rows.get? (Vocabulary.keyOfKeyword name)).map (.ref ·.made) :=
    Entries.get?_stored_value (m := rows) (f := fun row => Value.ref row.made)
  rw [Registry.element, if_neg hhead, hget]
  cases rows.get? (Vocabulary.keyOfKeyword name) <;> rfl

/-- A registry keeps one member that is made when it is asked for. -/
theorem madeMember_registry (id : Nat) (r : Registry Value) (h : name ≠ "_constructors") :
    madeMember id (.registry r) name = pure none := by
  rw [madeMember.eq_def]
  split
  · next heq => cases heq
  · next heq => cases heq
  · exact absurd rfl h
  · rfl

/-- A name that is not hidden is none of some hidden ones. -/
theorem not_mem_of_hidden (hhead : name.toList.head? ≠ some '_') (names : List String)
    (hnames : ∀ n ∈ names, n.toList.head? = some '_') : name ∉ names :=
  fun hmem => hhead (hnames name hmem)

variable {id : Nat} {r : Registry Value} {found : Found Value}

/-- What is no member of the registry itself is looked up as an element. -/
theorem runIn_find_registry (hid : w.objects[id]? = some (.registry r)) (hextras : r.extras = [])
    (hhead : name.toList.head? ≠ some '_') (hown : name ∉ ownMembers) :
    (find (.ref id) name).runIn w = (Found.part <$> r.element .atom name, w) := by
  have hmade : madeMember id (.registry r) name = pure none :=
    madeMember_registry _ _ fun heq =>
      not_mem_of_hidden hhead ["_constructors"] (by decide +kernel)
        (List.mem_singleton.mpr heq)
  have hparts : Entries.get? ((Object.registry r).extras ++
      (Object.registry r).parts Value.atom) name = none := by
    rw [Object.extras, hextras]
    refine Entries.get?_of_not_mem fun hmem => ?_
    have hmem' : name ∈ ["void_tags"] ++ ["__module__"] := hmem
    rcases List.mem_append.mp hmem' with h | h
    · exact hown (List.mem_append_left _ h)
    · exact not_mem_of_hidden hhead _ (by decide +kernel) h
  have hskills : name ∉ (Object.registry r).skills := by
    intro hmem
    have hmem' : name ∈ ["add_element", "is_void", "create"] ++ ["__len__", "__getitem__",
      "__contains__", "__getattr__", "__repr__", "__str__", "__class__"] := hmem
    rcases List.mem_append.mp hmem' with h | h
    · exact hown (List.mem_cons_of_mem _ h)
    · exact not_mem_of_hidden hhead _ (by decide +kernel) h
  rw [runIn_find hid hmade, Object.find, hparts]
  dsimp only
  rw [if_neg (by simpa using hskills)]

/--
What a name leads to in a registry: a skill, a part of its own, what is made for the look-up, or
else an element, whose name is neither hidden nor one of the registry's own.
-/
theorem cases_find_registry (hid : w.objects[id]? = some (.registry r)) (hextras : r.extras = [])
    (hrun : (find (.ref id) name).runIn w = (.ok found, w')) :
    (found = .skill ∧ w' = w) ∨
      (found = .part r.voidTags ∨ found = .part (.text "hypertree.registry") ∨
        found = .part (.ref w.objects.size)) ∨
      (name.toList.head? ≠ some '_' ∧ name ∉ ownMembers ∧ w' = w ∧
        ∃ v, r.element .atom name = .ok v ∧ found = .part v) := by
  by_cases hmade : name = "_constructors"
  · subst hmade
    rw [find, runIn_bind_ok (runIn_get hid)] at hrun
    cases hrun
    exact .inr (.inl (.inr (.inr rfl)))
  rw [runIn_find hid (madeMember_registry _ _ hmade), Prod.mk.injEq] at hrun
  obtain ⟨hfind, rfl⟩ := hrun
  rw [Object.find, Object.extras, hextras, List.nil_append] at hfind
  split at hfind
  · next part hpart =>
    cases hfind
    have hmem : (name, part) ∈ [("void_tags", r.voidTags),
        ("__module__", .text "hypertree.registry")] := Entries.mem_of_get? hpart
    simp only [List.mem_cons, Prod.mk.injEq, List.not_mem_nil, or_false] at hmem
    rcases hmem with ⟨-, rfl⟩ | ⟨-, rfl⟩
    · exact .inr (.inl (.inl rfl))
    · exact .inr (.inl (.inr (.inl rfl)))
  · next hparts =>
    have hnone : name ∉ ["void_tags", "__module__"] := Entries.not_mem_of_get? hparts
    split at hfind
    · cases hfind
      exact .inl ⟨rfl, rfl⟩
    · next hskills =>
      have hlacks : name ∉ (Object.registry r).skills := by simpa using hskills
      simp only [Object.skills, List.mem_cons, not_or] at hlacks
      simp only [List.mem_cons, not_or] at hnone
      have hown : name ∉ ownMembers := by
        simp only [ownMembers, List.mem_cons, not_or]
        exact ⟨hnone.1, hlacks.1, hlacks.2.1, hlacks.2.2.1, List.not_mem_nil⟩
      cases helement : r.element .atom name with
      | error f =>
        rw [helement] at hfind
        cases hfind
      | ok v =>
        rw [helement] at hfind
        cases hfind
        have hhead : name.toList.head? ≠ some '_' := by
          intro hhead
          rw [Registry.element, if_pos hhead] at helement
          cases helement
        exact .inr (.inr ⟨hhead, hown, rfl, v, rfl, rfl⟩)

/-- What is no member of the default registry itself is listed as an element. -/
theorem runIn_exportedMember (h : w.HasRegistry World.defaultRegistry voids rows)
    (hhead : name.toList.head? ≠ some '_') (hown : name ∉ ownMembers)
    (hrow : rows.get? (Vocabulary.keyOfKeyword name) = some row) :
    (exportedMember name).runIn w = (.ok (.ref row.made), w) := by
  obtain ⟨v, hid, -⟩ := h.registry
  have hlisting : Entries.get? listingNames name = none :=
    Entries.get?_of_not_mem (not_mem_of_hidden hhead _ (by decide +kernel))
  have hinternal : listingInternals.contains name = false := by
    simpa using not_mem_of_hidden hhead listingInternals (by decide +kernel)
  have hskill : listingSkills.contains name = false := by
    simpa using not_mem_of_hidden hhead listingSkills (by decide +kernel)
  have hfind : (find (.ref World.defaultRegistry) name).runIn w =
      (.ok (.part (.ref row.made)), w) := by
    rw [runIn_find_registry hid rfl hhead hown, element_ofRows v rows hhead, hrow]
    rfl
  have hexported : (exported name).runIn w = (.ok (.part (.ref row.made)), w) := by
    rw [exported, hlisting]
    dsimp only
    rw [hinternal, if_neg Bool.false_ne_true, hskill, if_neg Bool.false_ne_true,
      runIn_passedName_ok hfind]
  rw [exportedMember, runIn_bind_ok hexported]
  rfl

/-- A name that leads to a constructor is that of an element. -/
theorem exists_row_of_exportedMember (h : w.HasRegistry World.defaultRegistry voids rows) {k : Nat}
    {c : Constructor Value} (hk : w.objects[k]? = some (.constructor c))
    (hrun : (exportedMember name).runIn w = (.ok (.ref k), w')) :
    name.toList.head? ≠ some '_' ∧ name ∉ ownMembers ∧
      ∃ row, rows.get? (Vocabulary.keyOfKeyword name) = some row ∧ row.made = k := by
  have hlt := lt_size hk
  obtain ⟨v, hid, hv⟩ := h.registry
  rw [exportedMember] at hrun
  obtain ⟨found, w₁, hexported, hvalue⟩ := ok_of_runIn_bind hrun
  -- what is made for the look-up is no constructor that was there
  have hnew : (foundValue name .skill).runIn w ≠ (.ok (.ref k), w') := by
    intro heq
    have hmade := congrArg Prod.fst heq
    rw [foundValue, runIn_make', Except.ok.injEq, Value.ref.injEq] at hmade
    omega
  rw [exported.eq_def] at hexported
  split at hexported
  · next own hown =>
    have hall : ∀ e ∈ listingNames, ∃ s, e.2 = Value.text s := by
      simp [listingNames]
    obtain ⟨s, rfl⟩ := hall _ (Entries.mem_of_get? hown)
    cases hexported
    cases hvalue
  split at hexported
  · cases hexported
    cases hvalue
    omega
  split at hexported
  · cases hexported
    exact absurd hvalue hnew
  rcases cases_find_registry hid rfl (find_of_passedName hexported) with
    ⟨rfl, rfl⟩ | hother | ⟨hhead, hown, rfl, u, helement, rfl⟩
  · exact absurd hvalue hnew
  · rcases hother with rfl | rfl | rfl
    · cases hvalue
      rw [hv] at hk
      cases hk
    · cases hvalue
    · cases hvalue
      omega
  · rw [element_ofRows v rows hhead] at helement
    cases hrow : rows.get? (Vocabulary.keyOfKeyword name) with
    | none =>
      rw [hrow] at helement
      cases helement
    | some row =>
      rw [hrow] at helement
      cases helement
      cases hvalue
      exact ⟨hhead, hown, row, rfl, rfl⟩

/-- The tags of a registry that can be written as names are listed in their order. -/
theorem runIn_exports (h : w.HasRegistry World.defaultRegistry voids rows) :
    exports.runIn w = (.ok ((Entries.keys rows).filterMap exportName?), w) := by
  obtain ⟨v, hid, -⟩ := h.registry
  have hnames : (ofRows v rows).names.map w.read = (Entries.keys rows).map .text := by
    simp [Registry.names, ofRows, Entries.keys, Entries.stored, World.read, Function.comp_def]
  have htexts : exportsOf ((Entries.keys rows).map .text) =
      .ok ((Entries.keys rows).filterMap exportName?) := by
    rw [exportsOf, List.mapM_map, mapM_eq_ok (g := fun tag => tag)]
    · rw [List.map_id']
      rfl
    · exact fun _ _ => rfl
  rw [exports, runIn_bind_ok (runIn_registry hid)]
  dsimp only
  rw [runIn_bind_ok (runIn_world w), hnames, htexts, runIn_ofExcept]

end Operation

/-! ## The default registry -/

open Operation

/-- Rows of tags whose constructors are objects with consecutive numbers. -/
def Registry.rowsFrom (voids : List String) (first : Nat) (tags : List String) :
    Entries String Row :=
  (tags.zip (List.range' first tags.length)).map fun e => (e.1, ⟨e.2, voids.contains e.1⟩)

theorem keys_rowsFrom (voids : List String) (first : Nat) (tags : List String) :
    Entries.keys (rowsFrom voids first tags) = tags := by
  rw [Entries.keys, rowsFrom, List.map_map]
  exact List.map_fst_zip (by simp)

theorem stored_rowsFrom (voids : List String) (first : Nat) (tags : List String) :
    (rowsFrom voids first tags).stored Value.text (fun row => Value.ref row.made) =
      (tags.map Value.text).zip ((List.range' first tags.length).map Value.ref) := by
  rw [List.zip_map, Entries.stored, rowsFrom, List.map_map]
  rfl

theorem exists_of_mem_rowsFrom {first : Nat} {tags : List String} {e : String × Row}
    (h : e ∈ rowsFrom voids first tags) :
    ∃ i, tags[i]? = some e.1 ∧ e.2 = ⟨first + i, voids.contains e.1⟩ := by
  obtain ⟨p, hp, rfl⟩ := List.mem_map.mp h
  obtain ⟨i, hi⟩ := List.mem_iff_getElem?.mp hp
  rw [List.getElem?_zip_eq_some] at hi
  obtain ⟨hlt, hnumber⟩ := List.getElem?_eq_some_iff.mp hi.2
  rw [List.getElem_range', Nat.one_mul] at hnumber
  exact ⟨i, hi.1, by rw [hnumber]⟩

theorem nodup_knownTags : Vocabulary.knownTags.Nodup := by
  have hchain : List.IsChain (· < ·) Vocabulary.knownTags := by decide +kernel
  rw [List.isChain_iff_pairwise] at hchain
  refine hchain.imp fun h => ?_
  rintro rfl
  exact String.lt_irrefl _ h

/-- The default registry holds the known tags. -/
theorem registered_initial :
    World.initial.Registered World.defaultRegistry Vocabulary.voidTags
      (rowsFrom Vocabulary.voidTags 1 Vocabulary.knownTags)
      (Vocabulary.knownTags.map (·, none)) where
  holds :=
    { registry := by
        refine ⟨World.defaultVoidTags, ?_, by decide +kernel⟩
        have hid : World.initial.objects[World.defaultRegistry]? =
            some (.registry knownRegistry) := by
          simp [World.initial, World.defaultRegistry]
        rw [hid, ofRows, stored_rowsFrom, knownRegistry]
      constructors := by
        intro e he
        obtain ⟨i, htag, hrow⟩ := exists_of_mem_rowsFrom he
        have hlt := (List.getElem?_eq_some_iff.mp htag).1
        rw [hrow, World.initial, List.getElem?_toArray, Nat.add_comm, List.getElem?_cons_succ,
          List.getElem?_append_left, List.getElem?_map, knownConstructors, List.getElem?_map, htag]
        · rfl
        · simpa [knownConstructors] using hlt
      nodup := by
        rw [keys_rowsFrom]
        exact nodup_knownTags }
  reflects :=
    { names := by
        have hkeys : Entries.keys (Vocabulary.knownTags.map (·, (none : Option Bool))) =
            Vocabulary.knownTags := by
          simp [Entries.keys, Function.comp_def]
        rw [keys_rowsFrom, mentioned_of_nodup, hkeys]
        · rw [hkeys]
          exact nodup_knownTags
        · rw [hkeys]
          decide +kernel
      flags := by
        intro e he
        obtain ⟨i, -, hrow⟩ := exists_of_mem_rowsFrom he
        rw [hrow, firstFlag_unflagged] }

namespace World

/-- The world after some calls that register names with the default registry. -/
def registering (calls : Mentions) : World := World.initial.afterCalls World.defaultRegistry calls

/-- A name of the listing leads to the constructor of a tag. -/
def LeadsTo (w : World) (name tag : String) : Prop :=
  ∃ k isVoid, w.HasConstructor World.defaultRegistry tag k isVoid ∧
    (exportedMember name).runIn w = (.ok (.ref k), w)

end World

/-- A listed name leads to the constructor of its tag exactly if it is read as the tag. -/
theorem leadsTo_iff {tag : String} (h : w.HasRegistry World.defaultRegistry voids rows)
    (htag : tag ∈ Entries.keys rows) (hname : exportName? tag = some name) :
    w.LeadsTo name tag ↔ Resolvable tag := by
  rw [← resolves_iff hname]
  constructor
  · rintro ⟨k, isVoid, ⟨-, hk⟩, hrun⟩
    obtain ⟨hhead, hown, row, hrow, rfl⟩ := exists_row_of_exportedMember h hk hrun
    have hmade := h.constructors _ (Entries.mem_of_get? hrow)
    rw [hk] at hmade
    have heq : Vocabulary.keyOfKeyword name = tag ∧ row.isVoid = isVoid := by
      simpa using hmade.symm
    exact ⟨hhead, hown, heq.1⟩
  · rintro ⟨hhead, hown, hkey⟩
    obtain ⟨row, hrow⟩ := Option.isSome_iff_exists.mp (Entries.get?_isSome_iff_mem.mpr htag)
    refine ⟨row.made, row.isVoid, h.hasConstructor hrow, ?_⟩
    exact runIn_exportedMember h hhead hown (by rw [hkey, hrow])

/--
After any calls that register names, a listed name leads to the constructor of its tag exactly if
the tag is resolvable; all of them do, and no name is listed twice, exactly if all listed tags are.
-/
theorem listing_leads_back_iff (calls : Mentions) :
    exports.runIn (registering calls) = (.ok ((mentioned
      (Vocabulary.knownTags.map (·, none) ++ calls)).filterMap exportName?), registering calls) ∧
    (∀ tag ∈ mentioned (Vocabulary.knownTags.map (·, none) ++ calls), ∀ name,
      exportName? tag = some name → ((registering calls).LeadsTo name tag ↔ Resolvable tag)) ∧
    (((∀ tag ∈ mentioned (Vocabulary.knownTags.map (·, none) ++ calls), ∀ name,
        exportName? tag = some name → (registering calls).LeadsTo name tag) ∧
      ((mentioned (Vocabulary.knownTags.map (·, none) ++ calls)).filterMap exportName?).Nodup) ↔
      ∀ tag ∈ mentioned (Vocabulary.knownTags.map (·, none) ++ calls),
        (exportName? tag).isSome → Resolvable tag) := by
  obtain ⟨rows, hregistered, -, -⟩ := registered_initial.afterCalls calls
  have hholds : (registering calls).HasRegistry World.defaultRegistry _ rows := hregistered.holds
  rw [← hregistered.reflects.names]
  have hleads : ∀ tag ∈ Entries.keys rows, ∀ name, exportName? tag = some name →
      ((registering calls).LeadsTo name tag ↔ Resolvable tag) :=
    fun tag htag name hname => leadsTo_iff hholds htag hname
  refine ⟨runIn_exports hholds, hleads, ?_⟩
  constructor
  · rintro ⟨hall, -⟩ tag htag hlisted
    obtain ⟨name, hname⟩ := Option.isSome_iff_exists.mp hlisted
    exact (hleads tag htag name hname).mp (hall tag htag name hname)
  · intro hall
    have hback : ∀ tag ∈ Entries.keys rows, ∀ name, exportName? tag = some name →
        Vocabulary.keyOfKeyword name = tag := by
      intro tag htag name hname
      exact ((resolves_iff hname).mpr (hall tag htag (by rw [hname]; rfl))).2.2
    refine ⟨fun tag htag name hname => (hleads tag htag name hname).mpr
      (hall tag htag (by rw [hname]; rfl)), ?_⟩
    rw [List.Nodup, List.pairwise_filterMap]
    refine hholds.nodup.imp_of_mem fun hfirst hsecond hne name hname other hother heq => hne ?_
    rw [← hback _ hfirst name hname, heq, hback _ hsecond other hother]

/-- A tag with an underscore is listed as it is, but its listed name does not lead to it. -/
theorem listing_loses_underscore :
    exportName? "a_b" = some "a_b" ∧
    "a_b" ∈ mentioned (Vocabulary.knownTags.map (·, none) ++ [("a_b", none)]) ∧
    ¬ (registering [("a_b", none)]).LeadsTo "a_b" "a_b" := by
  have hname : exportName? "a_b" = some "a_b" := by decide +kernel
  have hmem : "a_b" ∈ mentioned (Vocabulary.knownTags.map (·, none) ++ [("a_b", none)]) :=
    mem_mentioned.mpr ⟨by simp [Entries.keys], by decide⟩
  refine ⟨hname, hmem, fun hleads => ?_⟩
  have hresolvable := ((listing_leads_back_iff [("a_b", none)]).2.1 _ hmem _ hname).mp hleads
  exact hresolvable.plain (by decide)

end Markup
