import Markup.Proofs.Attributes.Merging
import Markup.Proofs.Construction.Callees
import Markup.Proofs.Registry.Creation

/-!
# Attributes in two parts

A mapping is read entry by entry, and keywords are read as a mapping of their own that is put over
the first one.  Both give the same: one more entry goes into the later set of attributes, or into
what both sets make (`AttributeSet.addEntry_merge`), unless it sets anew what the first one has set.
So entries with new keys describe the same attributes wherever they are cut in two
(`AttributeSet.ofEntries_append`), and a call makes the same node whether it gives such entries in
its mapping or as keywords (`split_attributes`).  Names of parameters are no such keywords, and of
two mappings only the second one is read (`split_attributes_refused`).
-/

namespace Markup

open Vocabulary (keyOfKeyword)

namespace AttributeSet

variable {s t : AttributeSet} {k : String}

/-! ## What is not set yet -/

/-- If the name has a field of its own, that field is not set. -/
structure Lacks (s : AttributeSet) (name : String) : Prop where
  id : name = "id" → s.id = none
  classes : name = "class" → s.classes = []
  style : name = "style" → s.style = none

theorem lacks_empty (name : String) : empty.Lacks name := ⟨fun _ => rfl, fun _ => rfl, fun _ => rfl⟩

/-- An entry with another key does not set it. -/
theorem Lacks.addEntry {key value : Term} (hs : s.Lacks k) (hkey : key ≠ .text k)
    (h : s.addEntry key value = .ok t) : t.Lacks k := by
  rcases cases_addEntry h with ⟨name, -, hname, hset⟩ | ⟨-, ⟨_, _, -, -, rfl⟩ | ⟨_, -, rfl⟩⟩
  · have hne : k ≠ name := by
      rintro rfl
      exact hkey ((Term.exact_text k key).mp hname)
    rcases hset with ⟨rfl, _, rfl⟩ | ⟨rfl, _, rfl⟩ | ⟨rfl, _, -, rfl⟩
    · exact ⟨fun hk => absurd hk hne, hs.classes, hs.style⟩
    · exact ⟨hs.id, fun hk => absurd hk hne, hs.style⟩
    · exact ⟨hs.id, hs.classes, fun hk => absurd hk hne⟩
  · exact ⟨hs.id, hs.classes, hs.style⟩
  · exact ⟨hs.id, hs.classes, hs.style⟩

theorem lacks_ofEntries {m : Entries Term Term} (hk : .text k ∉ Entries.keys m)
    (h : ofEntries m = .ok s) : s.Lacks k := by
  refine foldlM_preserves (p := (·.Lacks k)) (fun s₀ e he t hs hentry => ?_) (lacks_empty k) h
  exact hs.addEntry (fun heq => hk (heq ▸ List.mem_map_of_mem he)) hentry

/-! ## One more entry -/

/-- One more entry goes into the later set, or into what both make. -/
theorem addEntry_merge (hs : s.Lacks k) (ht : t.Typed) (value : Term) :
    (s.merge t).addEntry (.text k) value = (s.merge ·) <$> t.addEntry (.text k) value := by
  rw [addEntry, addEntry]
  simp only [Term.text_beq_text]
  by_cases hid : (k == "id") = true
  · rw [if_pos hid, if_pos hid]
    have hnone := hs.id (eq_of_beq hid)
    by_cases hvalue : value.isNone = true
    · rw [if_pos hvalue, if_pos hvalue]
      simp [merge, hnone]
    · rw [if_neg hvalue, if_neg hvalue]
      cases value.plain <;> rfl
  rw [if_neg hid, if_neg hid]
  by_cases hclass : (k == "class") = true
  · rw [if_pos hclass, if_pos hclass]
    cases classesOf value with
    | error f => rfl
    | ok classes =>
      simp [merge, hs.classes (eq_of_beq hclass)]
  rw [if_neg hclass, if_neg hclass]
  by_cases hstyle : (k == "style") = true
  · rw [if_pos hstyle, if_pos hstyle]
    cases styleOf value with
    | error f => rfl
    | ok style =>
      have hlater : mergeStyle none style = style := by cases style <;> rfl
      simp [merge, hs.style (eq_of_beq hstyle), hlater]
  rw [if_neg hstyle, if_neg hstyle]
  cases listenersOf (.text k) value with
  | error f => rfl
  | ok listeners =>
    cases listeners with
    | some fns =>
      cases eventOf (.text k) with
      | error f => rfl
      | ok event =>
        have hextend := Entries.extendAll_extend (Entries.exact_of_lawful event)
          (fun i _ => Entries.exact_of_lawful i) ht.listeners s.listeners fns
        simp [merge, hextend]
    | none =>
      cases attributeValueOf value with
      | error f => rfl
      | ok kept =>
        have hset := Entries.update_set (Term.exact_text k) ht.exact_keys ht.nodup_keys
          s.attrs kept
        simp [merge, hset]

/-! ## All entries -/

/-- Entries that a set lacks describe the same on their own as after what the set holds. -/
theorem foldlM_addEntry_merge {n : Entries String Term} (hs : ∀ k ∈ Entries.keys n, s.Lacks k)
    (ht : t.Typed) :
    (n.stored Term.text fun v => v).foldlM (fun u e => u.addEntry e.1 e.2) (s.merge t) =
      (s.merge ·) <$> (n.stored Term.text fun v => v).foldlM (fun u e => u.addEntry e.1 e.2) t := by
  induction n generalizing t with
  | nil => rfl
  | cons e n ih =>
    obtain ⟨he, hrest⟩ := List.forall_mem_cons.mp hs
    show (s.merge t).addEntry (.text e.1) e.2 >>= _ = (s.merge ·) <$> (t.addEntry _ _ >>= _)
    rw [addEntry_merge he ht]
    cases hentry : t.addEntry (.text e.1) e.2 with
    | error f => rfl
    | ok u => exact ih hrest (ht.addEntry hentry)

/-- Entries with new keys describe the same attributes apart from the others. -/
theorem ofEntries_append {m : List (Term × Term)} {n : Entries String Term}
    (h : ∀ k ∈ Entries.keys n, .text k ∉ Entries.keys m) :
    ofEntries (m ++ n.stored .text fun v => v) = do
      let s ← ofEntries m
      let t ← ofEntries (n.stored .text fun v => v)
      return s.merge t := by
  have hsplit : ofEntries (m ++ n.stored .text fun v => v) = ofEntries m >>= fun s =>
      (n.stored Term.text fun v => v).foldlM (fun u e => u.addEntry e.1 e.2) s :=
    List.foldlM_append
  rw [hsplit]
  cases hm : ofEntries m with
  | error f => rfl
  | ok s =>
    have hrest := foldlM_addEntry_merge (fun k hk => lacks_ofEntries (h k hk) hm) typed_empty
    rw [merge_empty] at hrest
    exact hrest

end AttributeSet

/-! ## Calls -/

section Calls

variable {two three : Term} {es : List (Term × Term)} {kw : List (String × Term)}

/-- A first argument that is a mapping gives the attributes, unless the second one is a mapping. -/
theorem Roles.resolve_map (htwo : secondAttributes? two = none) (i : Nat) (three : Term) :
    resolve (.map i es) two three =
      (fun roles => { roles with attributes := .entries es }) <$> resolve .none two three := by
  have hrun : ∀ one, children? one = none → resolve one two three =
      ((content? two).elim (pure "") primitiveText >>= fun content =>
        ((children? three).or (children? two)).elim (pure []) laxChildren >>= fun children =>
          pure ⟨(firstAttributes? one).getD (.entries []), content, children⟩) := by
    intro one hone
    rw [resolve, htwo, hone, Option.or_none, Option.none_or]
    cases content? two <;> cases (children? three).or (children? two) <;> rfl
  rw [hrun _ rfl, hrun .none rfl]
  cases (content? two).elim (pure "") primitiveText with
  | error f => rfl
  | ok content =>
    cases ((children? three).or (children? two)).elim (pure []) laxChildren with
    | error f => rfl
    | ok children => rfl

/-- A call describes the same whether it gives entries in its mapping or as keywords. -/
theorem describe_split (htwo : Roles.secondAttributes? two = none)
    (hnames : (kw.map fun e => keyOfKeyword e.1).Nodup)
    (hnew : ∀ e ∈ kw, .text (keyOfKeyword e.1) ∉ Entries.keys es) (i j : Nat) :
    describe (.map i es) two three kw =
      describe (.map j (es ++ kw.map fun e => (.text (keyOfKeyword e.1), e.2))) two three [] := by
  let n : Entries String Term := kw.map fun e => (keyOfKeyword e.1, e.2)
  have hkeys : Entries.keys n = kw.map fun e => keyOfKeyword e.1 := by
    simp [n, Entries.keys, Function.comp_def]
  have hn : (kw.map fun e => (Term.text (keyOfKeyword e.1), e.2)) =
      n.stored .text fun v => v := by
    simp [n, Entries.stored, Function.comp_def]
  have hkeywords : AttributeSet.ofKeywords kw = AttributeSet.ofEntries
      (n.stored .text fun v => v) := by
    have hlist : Entries.ofList n = n := Entries.update_of_nodup (by rwa [List.nil_append, hkeys])
    rw [AttributeSet.ofKeywords, hlist]
    rfl
  have happend := AttributeSet.ofEntries_append (m := es) (n := n) fun k hk => by
    rw [hkeys] at hk
    obtain ⟨e, he, rfl⟩ := List.mem_map.mp hk
    exact hnew e he
  rw [describe, describe, Roles.resolve_map htwo, Roles.resolve_map htwo, hn]
  cases Roles.resolve .none two three with
  | error f => rfl
  | ok roles =>
    show (AttributeSet.ofEntries es >>= fun base => _) =
      (AttributeSet.ofEntries _ >>= fun base => _)
    rw [happend]
    cases AttributeSet.ofEntries es with
    | error f => rfl
    | ok base =>
      by_cases hkw : kw = []
      · have hnil : n = [] := by simp [n, hkw]
        rw [hnil, hkw]
        show _ = Except.ok (base.merge .empty, roles.content, roles.children)
        rw [AttributeSet.merge_empty]
        rfl
      · have hsome : ¬ kw.isEmpty = true := fun hempty => hkw (List.isEmpty_iff.mp hempty)
        dsimp only [ok_bind]
        rw [if_neg hsome, hkeywords]
        cases AttributeSet.ofEntries (n.stored .text fun v => v) <;> rfl

end Calls

/-- The names that no keyword of a constructor can have for an attribute. -/
def parameters : List String := ["self", "one", "two", "three"]

theorem Arguments.ofCall_full {one two three : Value} {kw : List (String × Value)}
    (h : ∀ e ∈ kw, e.1 ∉ parameters) :
    ofCall ["self"] ⟨[one, two, three], kw⟩ = .ok ⟨one, two, three, kw⟩ := by
  simp only [parameters, List.mem_cons, List.not_mem_nil, or_false, not_or] at h
  have hself : ¬ kw.any (["self"].contains ·.1) = true := by
    rw [List.any_eq_true]
    rintro ⟨e, he, hname⟩
    exact (h e he).1 (by simpa using hname)
  rw [ofCall, Call.bind]
  dsimp only
  rw [if_neg hself, Call.take_of_not_mem fun e he => (h e he).2.1]
  dsimp only
  rw [Call.take_of_not_mem fun e he => (h e he).2.2.1]
  dsimp only
  rw [Call.take_of_not_mem fun e he => (h e he).2.2.2]
  rfl

namespace Operation

variable {w : World} {k i j : Nat} {made : Constructor Value} {es : List (Value × Value)}
  {kw : List (String × Value)} {two three : Value}

/-- A constructor that is called with a mapping makes what the mapping describes. -/
theorem runIn_callValue_map (hk : w.objects[k]? = some (.constructor made))
    (hi : w.objects[i]? = some (.map es)) (hkw : ∀ e ∈ kw, e.1 ∉ parameters) :
    (callValue (.ref k) ⟨[.ref i, two, three], kw⟩).runIn w =
      (ofExcept (describe (.map i (es.map (Prod.map w.readPart w.readPart))) (w.read two)
          (w.read three) (kw.map fun e => (e.1, w.readPart e.2))) >>= fun described =>
        makeNodeWith made.name made.isVoid described.1 described.2.1 described.2.2).runIn w := by
  have hread : w.read (.ref i) = .map i (es.map (Prod.map w.readPart w.readPart)) :=
    World.read_ref hi
  rw [callValue, runIn_bind_ok (runIn_get hk)]
  show (callConstructor made _).runIn w = _
  rw [callConstructor, Arguments.ofCall_full hkw, runIn_bind_ok (runIn_ofExcept _ w),
    runIn_construct_describe, hread]

/-- A call makes the same node whether it gives entries in its mapping or as keywords. -/
theorem runIn_callValue_split (hk : w.objects[k]? = some (.constructor made))
    (hi : w.objects[i]? = some (.map es))
    (hj : w.objects[j]? = some (.map (es ++ kw.map fun e => (.text (keyOfKeyword e.1), e.2))))
    (hkw : ∀ e ∈ kw, e.1 ∉ parameters) (hnames : (kw.map fun e => keyOfKeyword e.1).Nodup)
    (hnew : ∀ e ∈ kw, .text (keyOfKeyword e.1) ∉ Entries.keys es)
    (htwo : w.entries? two = none) :
    (callValue (.ref k) ⟨[.ref i, two, three], kw⟩).runIn w =
      (callValue (.ref k) ⟨[.ref j, two, three], []⟩).runIn w := by
  have hsecond : Roles.secondAttributes? (w.read two) = none := by
    rw [World.secondAttributes?_read, htwo]
    rfl
  have hkeys : ∀ e ∈ kw.map fun e => (e.1, w.readPart e.2), .text (keyOfKeyword e.1) ∉
      Entries.keys (es.map (Prod.map w.readPart w.readPart)) := by
    intro e he hmem
    obtain ⟨d, hd, rfl⟩ := List.mem_map.mp he
    obtain ⟨f, hf, hkey⟩ := List.mem_map.mp hmem
    obtain ⟨g, hg, rfl⟩ := List.mem_map.mp hf
    refine hnew d hd (List.mem_map.mpr ⟨g, hg, ?_⟩)
    rw [← World.toValue_unfold w true w.objects.size g.1]
    exact congrArg Term.toValue hkey
  rw [runIn_callValue_map hk hi hkw, runIn_callValue_map hk hj (List.forall_mem_nil _),
    describe_split hsecond (by rw [List.map_map]; exact hnames) hkeys i j]
  simp [Function.comp_def, World.readPart]

end Operation

/-! ## The main result -/

open Operation

/--
It does not matter how attributes are cut in two.  Entries with new keys describe the same
attributes after the others as apart from them, or are refused alike; and a constructor makes the
same node, by the very same run, whether it is given such entries in its mapping or as keywords.
-/
theorem split_attributes :
    (∀ (m : List (Term × Term)) (n : Entries String Term),
      (∀ k ∈ Entries.keys n, .text k ∉ Entries.keys m) → ∀ i j l : Nat,
        AttributeSet.ofTerm (.map i (m ++ n.stored .text fun v => v)) = do
          let s ← AttributeSet.ofTerm (.map j m)
          let t ← AttributeSet.ofTerm (.map l (n.stored .text fun v => v))
          return s.merge t) ∧
    ∀ (w : World) (k i j : Nat) (made : Constructor Value) (es : List (Value × Value))
      (kw : List (String × Value)) (content children : Value),
      w.objects[k]? = some (.constructor made) → w.objects[i]? = some (.map es) →
      w.objects[j]? = some (.map (es ++ kw.map fun e => (.text (keyOfKeyword e.1), e.2))) →
      (∀ e ∈ kw, e.1 ∉ parameters) → (kw.map fun e => keyOfKeyword e.1).Nodup →
      (∀ e ∈ kw, .text (keyOfKeyword e.1) ∉ Entries.keys es) → w.entries? content = none →
        (callValue (.ref k) ⟨[.ref i, content, children], kw⟩).runIn w =
          (callValue (.ref k) ⟨[.ref j, content, children], []⟩).runIn w :=
  ⟨fun _ _ h _ _ _ => AttributeSet.ofEntries_append h,
    fun _ _ _ _ _ _ _ _ _ hk hi hj hkw hnames hnew hcontent =>
      runIn_callValue_split hk hi hj hkw hnames hnew hcontent⟩

/--
A constructor, a mapping that can be given first, some that can be given with the keywords among
their entries, and a listener.
-/
def World.withMappings : World := .ofObjects #[.constructor ⟨.text "p", .bool false⟩,
  .map [(.text "title", .text "t"), (.text "onclick", .ref 2)], .listener (.text "f") none none [],
  .map [(.text "title", .text "t"), (.text "onclick", .ref 2), (.text "class", .text "x y"),
    (.text "data-id", .int 1), (.text "style", .text "top:0")],
  .map [], .map [(.text "one", .int 1)], .map [(.text "lang", .text "en")],
  .map [(.text "id", .text "a")]]

/-- A mapping with a listener, and keywords for a class, a style and a plain attribute. -/
theorem split_attributes_styled :
    (AttributeSet.ofTerm (.map 0 [(.text "id", .none), (.text "title", .text "t"),
        (.text "class", .text "x y")]) = do
      let s ← AttributeSet.ofTerm (.map 1 [(.text "id", .none), (.text "title", .text "t")])
      let t ← AttributeSet.ofTerm (.map 2 [(.text "class", .text "x y")])
      return s.merge t) ∧
    ((callValue (.ref 0) ⟨[.ref 1, .text "c", .none], [("class_", .text "x y"),
        ("data_id", .int 1), ("style", .text "top:0")]⟩).runIn .withMappings =
      (callValue (.ref 0) ⟨[.ref 3, .text "c", .none], []⟩).runIn .withMappings) := by
  obtain ⟨hdescribed, hmade⟩ := split_attributes
  refine ⟨hdescribed [(.text "id", .none), (.text "title", .text "t")]
    [("class", .text "x y")] (by simp [Entries.keys]) 0 1 2, ?_⟩
  exact hmade .withMappings 0 1 3 _ _ _ _ _ rfl rfl rfl (by decide) (by decide)
    (by decide) rfl

/-- The name of a parameter is no attribute, and beside a second mapping the first is not read. -/
theorem split_attributes_refused :
    ((callValue (.ref 0) ⟨[.ref 4, .none, .none], [("one", .int 1)]⟩).runIn .withMappings).1 =
        .error .unsuitable ∧
      ((callValue (.ref 0) ⟨[.ref 5, .none, .none], []⟩ >>= render).runIn .withMappings).1 =
        .ok "<p one=\"1\"></p>" ∧
      ((callValue (.ref 0) ⟨[.ref 4, .ref 7, .none], [("lang", .text "en")]⟩ >>=
        render).runIn .withMappings).1 = .ok "<p id=\"a\" lang=\"en\"></p>" ∧
      ((callValue (.ref 0) ⟨[.ref 6, .ref 7, .none], []⟩ >>= render).runIn .withMappings).1 =
        .ok "<p id=\"a\"></p>" :=
  ⟨by decide +kernel, by decide +kernel, by decide +kernel, by decide +kernel⟩

end Markup
