import Markup.Proofs.Entries
import Markup.Proofs.Text.Quoted
import Markup.Suite.Run

/-!
# File trees and where paths lead

In a well-formed tree the entries of a directory have different names, each of which could be a
component of a path.  Two trees are `Relisted` if they are the same but for the order in which
their directories list the entries; then each path leads to relisted trees.

`Place.locate` forgets the components of a path that lead back.  Where a path leads to something,
the names that are left lead to the same from the top (`Place.follow_locate`).  A path that is
passed on to be run from the build directory is located there where it was found
(`Place.locate_passed`).
-/

namespace Markup.Suite

namespace FileTree

/-- Trees are gone through with the entries of a directory as a whole. -/
@[elab_as_elim, induction_eliminator]
theorem ind {p : FileTree → Prop} (file : p .file)
    (directory : ∀ entries, (∀ e ∈ entries, p e.2) → p (.directory entries)) (t : FileTree) :
    p t := by
  refine t.rec (motive_2 := fun entries => ∀ e ∈ entries, p e.2) (motive_3 := fun e => p e.2)
    file directory (fun _ he => nomatch he) ?_ fun _ _ h => h
  intro e entries he hentries
  exact List.forall_mem_cons.mpr ⟨he, hentries⟩

/-- A component of a path that leads to an entry. -/
structure IsName (name : String) : Prop where
  not_empty : name ≠ ""
  not_dot : name ≠ "."
  not_dots : name ≠ ".."
  no_slash : '/' ∉ name.toList

instance : DecidablePred IsName := fun name =>
  decidable_of_iff (name ≠ "" ∧ name ≠ "." ∧ name ≠ ".." ∧ '/' ∉ name.toList)
    ⟨fun ⟨h, hdot, hdots, hslash⟩ => ⟨h, hdot, hdots, hslash⟩,
      fun ⟨h, hdot, hdots, hslash⟩ => ⟨h, hdot, hdots, hslash⟩⟩

/-- The entries of each directory have names, all of them different. -/
inductive WellFormed : FileTree → Prop
  | file : WellFormed .file
  | directory {entries : List (String × FileTree)} (different : (Entries.keys entries).Nodup)
      (names : ∀ e ∈ entries, IsName e.1) (below : ∀ e ∈ entries, WellFormed e.2) :
      WellFormed (.directory entries)

/-- The trees are the same but for the order in which directories list their entries. -/
inductive Relisted : FileTree → FileTree → Prop
  | file : Relisted .file .file
  | directory {entries entries' : List (String × FileTree)}
      (names : (Entries.keys entries).Perm (Entries.keys entries'))
      (below : ∀ name t t', (name, t) ∈ entries → (name, t') ∈ entries' → Relisted t t') :
      Relisted (.directory entries) (.directory entries')

variable {t t' here here' : FileTree} {above above' : List FileTree} {cs rest : List String}
  {name : String}

theorem Relisted.symm (h : t.Relisted t') : t'.Relisted t := by
  induction h with
  | file => exact .file
  | directory names _ ih => exact .directory names.symm fun name t t' ht ht' => ih name t' t ht' ht

/-- An entry has a counterpart of the same name in another listing. -/
theorem exists_mem_of_perm {entries entries' : List (String × FileTree)}
    (names : (Entries.keys entries).Perm (Entries.keys entries')) (h : (name, t) ∈ entries) :
    ∃ t', (name, t') ∈ entries' := by
  obtain ⟨e, he, rfl⟩ := List.mem_map.mp (names.mem_iff.mp (List.mem_map_of_mem h))
  exact ⟨e.2, he⟩

theorem WellFormed.relisted (ht : t.WellFormed) (h : t.Relisted t') : t'.WellFormed := by
  induction h with
  | file => exact .file
  | directory names _ ih =>
    cases ht with
    | directory different plain below =>
      refine .directory (names.nodup_iff.mp different) ?_ ?_
      · rintro ⟨name, t'⟩ ht'
        obtain ⟨t, ht⟩ := exists_mem_of_perm names.symm ht'
        exact plain (name, t) ht
      · rintro ⟨name, t'⟩ ht'
        obtain ⟨t, ht⟩ := exists_mem_of_perm names.symm ht'
        exact ih name t t' ht ht' (below _ ht)

theorem Relisted.only (h : t.Relisted t') (name : String) :
    Relisted (.directory [(name, t)]) (.directory [(name, t')]) := by
  refine .directory (.refl _) fun name u u' hu hu' => ?_
  cases List.mem_singleton.mp hu
  cases List.mem_singleton.mp hu'
  exact h

/-- Entries in another order are the same under each name, if the names are different. -/
theorem WellFormed.relisted_of_perm {entries entries' : List (String × FileTree)}
    (h : WellFormed (.directory entries)) (hperm : entries.Perm entries') :
    Relisted (.directory entries) (.directory entries') := by
  generalize ht : FileTree.directory entries = t at h
  induction h generalizing entries entries' with
  | file => cases ht
  | @directory members different names below ih =>
    cases ht
    refine .directory (hperm.map _) fun name t t' hmem hmem' => ?_
    have hsame := List.inj_on_of_nodup_map different hmem (hperm.mem_iff.mpr hmem') rfl
    cases hsame
    cases t with
    | file => exact .file
    | directory inner => exact ih _ hmem (.refl inner) rfl

/-! ## Following components -/

@[simp] theorem follow_nil : follow above here [] = some here := by rw [follow]

@[simp] theorem follow_file_cons : follow above .file (name :: rest) = none := by rw [follow]

/-- One component from a directory. -/
theorem follow_cons (entries : List (String × FileTree)) :
    follow above (.directory entries) (name :: rest) =
      if name = "" ∨ name = "." then follow above (.directory entries) rest
      else if name = ".." then
        follow above.tail (above.head?.getD (.directory entries)) rest
      else (Entries.get? entries name).bind fun below =>
        follow (.directory entries :: above) below rest := by
  cases above <;> cases hentry : Entries.get? entries name <;> simp [follow, hentry]

theorem follow_skip (entries : List (String × FileTree)) (h : name = "" ∨ name = ".") :
    follow above (.directory entries) (name :: rest) = follow above (.directory entries) rest := by
  rw [follow_cons, if_pos h]

theorem follow_dots_nil (entries : List (String × FileTree)) :
    follow [] (.directory entries) (".." :: rest) = follow [] (.directory entries) rest := by
  simp [follow_cons]

theorem follow_dots_cons (entries : List (String × FileTree)) (parent : FileTree) :
    follow (parent :: above) (.directory entries) (".." :: rest) = follow above parent rest := by
  simp [follow_cons]

theorem follow_entry (entries : List (String × FileTree)) (h : ¬(name = "" ∨ name = "."))
    (h' : name ≠ "..") :
    follow above (.directory entries) (name :: rest) =
      (Entries.get? entries name).bind fun below =>
        follow (.directory entries :: above) below rest := by
  rw [follow_cons, if_neg h, if_neg h']

theorem IsName.not_skipped (h : IsName name) : ¬(name = "" ∨ name = ".") :=
  fun hname => hname.elim h.not_empty h.not_dot

/-- The same components lead to relisted trees, or nowhere. -/
theorem Relisted.follow (habove : List.Forall₂ Relisted above above') (h : here.Relisted here') :
    Option.Rel Relisted (follow above here cs) (follow above' here' cs) := by
  induction cs generalizing above above' here here' with
  | nil => simpa using h
  | cons name rest ih =>
    cases h with
    | file => simp
    | @directory entries entries' names below =>
      have hhere : Relisted (.directory entries) (.directory entries') := .directory names below
      by_cases hskip : name = "" ∨ name = "."
      · rw [follow_skip _ hskip, follow_skip _ hskip]
        exact ih habove hhere
      by_cases hdots : name = ".."
      · subst hdots
        cases habove with
        | nil =>
          rw [follow_dots_nil, follow_dots_nil]
          exact ih .nil hhere
        | cons hparent hrest =>
          rw [follow_dots_cons, follow_dots_cons]
          exact ih hrest hparent
      rw [follow_entry _ hskip hdots, follow_entry _ hskip hdots]
      have hthere : (Entries.get? entries name).isSome ↔ (Entries.get? entries' name).isSome := by
        rw [Entries.get?_isSome_iff_mem, Entries.get?_isSome_iff_mem, names.mem_iff]
      cases ht : Entries.get? entries name with
      | none =>
        have hnone : Entries.get? entries' name = none := by simpa [ht] using hthere
        simp [hnone]
      | some t =>
        obtain ⟨t', ht'⟩ := Option.isSome_iff_exists.mp (hthere.mp (by simp [ht]))
        rw [ht']
        have hbelow := below name t t' (Entries.mem_of_get? ht) (Entries.mem_of_get? ht')
        exact ih (.cons hhere habove) hbelow

/-- Names do not lead back, so what lies above does not matter to them. -/
theorem follow_names (hnames : ∀ name ∈ rest, IsName name) :
    follow above here rest = follow [] here rest := by
  induction rest generalizing above here with
  | nil => simp
  | cons name rest ih =>
    obtain ⟨hname, hrest⟩ := List.forall_mem_cons.mp hnames
    cases here with
    | file => simp
    | directory entries =>
      rw [follow_entry _ hname.not_skipped hname.not_dots,
        follow_entry _ hname.not_skipped hname.not_dots]
      cases Entries.get? entries name with
      | none => simp
      | some below => simpa using (ih hrest).trans (ih hrest).symm

/-- What does not lead back can be followed from where the components before it lead to. -/
theorem follow_append (cs : List String)
    (hrest : ∀ above here, follow above here rest = follow [] here rest) :
    follow above here (cs ++ rest) = (follow above here cs).bind fun t => follow [] t rest := by
  induction cs generalizing above here with
  | nil => simpa using hrest above here
  | cons c cs ih =>
    cases here with
    | file => simp
    | directory entries =>
      rw [List.cons_append]
      by_cases hskip : c = "" ∨ c = "."
      · rw [follow_skip _ hskip, follow_skip _ hskip, ih]
      by_cases hdots : c = ".."
      · subst hdots
        cases above with
        | nil => rw [follow_dots_nil, follow_dots_nil, ih]
        | cons parent above => rw [follow_dots_cons, follow_dots_cons, ih]
      rw [follow_entry _ hskip hdots, follow_entry _ hskip hdots]
      cases Entries.get? entries c with
      | none => simp
      | some below => simpa using ih

theorem follow_append_names (cs : List String) (hnames : ∀ name ∈ rest, IsName name) :
    follow above here (cs ++ rest) = (follow above here cs).bind fun t => follow [] t rest :=
  follow_append cs fun _ _ => follow_names hnames

/-- A slash at the end only asks for a directory. -/
theorem follow_of_append_empty (h : follow above here (cs ++ [""]) = some t) :
    follow above here cs = some t := by
  have hempty : ∀ above here, follow above here [""] = follow [] here [""] := by
    intro above here
    cases here with
    | file => simp
    | directory entries =>
      rw [follow_skip _ (.inl rfl), follow_skip _ (.inl rfl), follow_nil, follow_nil]
  rw [follow_append cs hempty] at h
  obtain ⟨there, hthere, h⟩ := Option.bind_eq_some_iff.mp h
  cases there with
  | file => simp at h
  | directory entries =>
    rw [follow_skip _ (.inl rfl), follow_nil] at h
    rw [hthere, h]

theorem WellFormed.follow (habove : ∀ a ∈ above, a.WellFormed) (hhere : here.WellFormed)
    (h : follow above here cs = some t) : t.WellFormed := by
  induction cs generalizing above here with
  | nil =>
    rw [follow_nil, Option.some.injEq] at h
    exact h ▸ hhere
  | cons c cs ih =>
    cases hhere with
    | file => simp at h
    | @directory entries different names below =>
      have hwell : (FileTree.directory entries).WellFormed := .directory different names below
      by_cases hskip : c = "" ∨ c = "."
      · exact ih habove hwell (by rwa [follow_skip _ hskip] at h)
      by_cases hdots : c = ".."
      · subst hdots
        cases above with
        | nil => exact ih habove hwell (by rwa [follow_dots_nil] at h)
        | cons parent above =>
          obtain ⟨hparent, hrest⟩ := List.forall_mem_cons.mp habove
          exact ih hrest hparent (by rwa [follow_dots_cons] at h)
      rw [follow_entry _ hskip hdots] at h
      obtain ⟨there, hthere, h⟩ := Option.bind_eq_some_iff.mp h
      exact ih (List.forall_mem_cons.mpr ⟨hwell, habove⟩)
        (below _ (Entries.mem_of_get? hthere)) h

end FileTree

/-! ## Where a path is located -/

open FileTree

section Names

variable {done cs rest : List String} {c : String}

/-- Components have no slash, and every one that is kept is a name. -/
theorem isName_of_mem_foldl (hcs : ∀ c ∈ cs, '/' ∉ c.toList) (hdone : ∀ c ∈ done, IsName c) :
    ∀ c ∈ cs.foldl descend done, IsName c := by
  induction cs generalizing done with
  | nil => exact hdone
  | cons c cs ih =>
    obtain ⟨hc, hrest⟩ := List.forall_mem_cons.mp hcs
    refine ih hrest ?_
    rw [descend]
    split_ifs with hskip hdots
    · exact hdone
    · exact fun d hd => hdone d (List.mem_of_mem_tail hd)
    · rw [not_or] at hskip
      exact List.forall_mem_cons.mpr ⟨⟨hskip.1, hskip.2, hdots, hc⟩, hdone⟩

theorem foldl_descend_names (h : ∀ c ∈ cs, IsName c) :
    cs.foldl descend done = cs.reverse ++ done := by
  induction cs generalizing done with
  | nil => simp
  | cons c cs ih =>
    obtain ⟨hc, hrest⟩ := List.forall_mem_cons.mp h
    simp [descend, hc.not_skipped, hc.not_dots, ih hrest]

theorem foldl_descend_dots (n : Nat) (done : List String) :
    (List.replicate n "..").foldl descend done = done.drop n := by
  induction n generalizing done with
  | zero => simp
  | succ n ih => simp [List.replicate_succ, descend, ih]

/-- A relative path goes back to where two ways part, and on from there. -/
theorem relativeFrom_eq (base target : List String) : ∃ common left right,
    base = common ++ left ∧ target = common ++ right ∧
      relativeFrom base target = List.replicate left.length ".." ++ right := by
  induction base generalizing target with
  | nil => exact ⟨[], [], target, rfl, rfl, by simp [relativeFrom]⟩
  | cons d ds ih =>
    cases target with
    | nil => exact ⟨[], d :: ds, [], rfl, rfl, by simp [relativeFrom]⟩
    | cons c cs =>
      by_cases hsame : d = c
      · subst hsame
        obtain ⟨common, left, right, rfl, rfl, hrelative⟩ := ih cs
        exact ⟨d :: common, left, right, rfl, rfl, by simp [relativeFrom, hrelative]⟩
      · exact ⟨[], d :: ds, c :: cs, rfl, rfl, by simp [relativeFrom, hsame]⟩

/-- A relative path, taken from where it starts, leads where it was to lead. -/
theorem normalize_append_relativeFrom {base target : List String} (hbase : ∀ c ∈ base, IsName c)
    (htarget : ∀ c ∈ target, IsName c) : normalize (base ++ relativeFrom base target) = target := by
  obtain ⟨common, left, right, rfl, rfl, hrelative⟩ := relativeFrom_eq base target
  have hright : ∀ c ∈ right, IsName c := fun c hc => htarget c (List.mem_append_right _ hc)
  have hback : (common ++ left).reverse.drop left.length = common.reverse := by simp
  rw [normalize, hrelative, List.foldl_append, foldl_descend_names hbase, List.foldl_append,
    foldl_descend_dots, List.append_nil, hback, foldl_descend_names hright]
  simp

theorem components_intercalate (hne : cs ≠ []) (h : ∀ c ∈ cs, '/' ∉ c.toList) :
    components ("/".intercalate cs) = cs :=
  Text.splitAt_intercalate hne h

/-- A path that starts with a component is relative. -/
theorem head?_intercalate (hc : c ≠ "") (hslash : '/' ∉ c.toList) :
    ("/".intercalate (c :: cs)).toList.head? ≠ some '/' := by
  have hne : c.toList ≠ [] := by simpa using hc
  have hstart : ∃ s, "/".intercalate (c :: cs) = c ++ s := by
    cases cs with
    | nil => exact ⟨"", by simp⟩
    | cons d ds =>
      exact ⟨"/" ++ "/".intercalate (d :: ds), by
        rw [String.intercalate_cons_cons, String.append_assoc]⟩
  obtain ⟨s, hs⟩ := hstart
  rw [hs, String.toList_append, List.head?_append_of_ne_nil _ hne]
  exact fun hhead => hslash (List.mem_of_mem_head? hhead)

/-- Neither the steps back nor the names of a relative path are empty or have a slash. -/
theorem of_mem_relativeFrom {base target : List String} (htarget : ∀ c ∈ target, IsName c)
    (hc : c ∈ relativeFrom base target) : c ≠ "" ∧ '/' ∉ c.toList := by
  obtain ⟨common, left, right, rfl, rfl, hrelative⟩ := relativeFrom_eq base target
  rw [hrelative, List.mem_append] at hc
  rcases hc with hc | hc
  · rw [List.eq_of_mem_replicate hc]
    decide
  · have hname := htarget c (List.mem_append_right _ hc)
    exact ⟨hname.not_empty, hname.no_slash⟩

theorem components_append (path rest : String) :
    components (path ++ "/" ++ rest) = components path ++ components rest := by
  have hslash : (path ++ "/" ++ rest).toList = path.toList ++ '/' :: rest.toList := by simp
  rw [components, hslash, Text.splitAt_eq_splitOnP, List.splitOnP_append_cons _ _ (by simp)]
  simp [components, Text.splitAt_eq_splitOnP]

theorem no_slash_of_mem_components {path : String} (h : c ∈ components path) : '/' ∉ c.toList := by
  obtain ⟨piece, hpiece, rfl⟩ := List.mem_map.mp h
  intro hslash
  have hc := Text.not_separates_of_mem_splitAt hpiece '/' (by simpa using hslash)
  simp at hc

end Names

/-- How names lead from the top: the last name first, the directories on the way, what is there. -/
inductive Descends (top : FileTree) : List String → List FileTree → FileTree → Prop
  | start : Descends top [] [] top
  | down {done : List String} {above : List FileTree} {entries : List (String × FileTree)}
      {name : String} {t : FileTree} (way : Descends top done above (.directory entries))
      (isName : IsName name) (entry : Entries.get? entries name = some t) :
      Descends top (name :: done) (.directory entries :: above) t

namespace Descends

variable {top here t : FileTree} {done cs : List String} {above : List FileTree}

/-- The names lead there from the top. -/
theorem follow_eq (h : Descends top done above here) : top.follow [] done.reverse = some here := by
  induction h with
  | start => simp
  | @down done above entries name t way hname hentry ih =>
    have hlast : ∀ c ∈ [name], IsName c := by simpa using hname
    rw [List.reverse_cons, follow_append_names _ hlast, ih, Option.bind_some,
      follow_entry _ hname.not_skipped hname.not_dots, hentry]
    simp

/-- Wherever components lead to, the names that are kept of them lead there, too. -/
theorem foldl (h : Descends top done above here) (hcs : ∀ c ∈ cs, '/' ∉ c.toList)
    (ht : follow above here cs = some t) :
    ∃ above', Descends top (cs.foldl descend done) above' t := by
  induction cs generalizing done above here with
  | nil =>
    rw [follow_nil, Option.some.injEq] at ht
    exact ⟨above, ht ▸ h⟩
  | cons c cs ih =>
    obtain ⟨hc, hrest⟩ := List.forall_mem_cons.mp hcs
    cases here with
    | file => simp at ht
    | directory entries =>
      rw [List.foldl_cons, descend]
      split_ifs with hskip hdots
      · exact ih h hrest (by rwa [follow_skip _ hskip] at ht)
      · subst hdots
        cases h with
        | start => exact ih .start hrest (by rwa [follow_dots_nil] at ht)
        | down way _ _ => exact ih way hrest (by rwa [follow_dots_cons] at ht)
      · rw [follow_entry _ hskip hdots] at ht
        obtain ⟨below, hbelow, ht⟩ := Option.bind_eq_some_iff.mp ht
        rw [not_or] at hskip
        exact ih (.down h ⟨hskip.1, hskip.2, hdots, hc⟩ hbelow) hrest ht

end Descends

namespace Place

/-- A well-formed file system, and names for the way to the working directory. -/
structure WellFormed (p : Place) : Prop where
  top : p.top.WellFormed
  names : ∀ name ∈ p.workingDirectory, IsName name

/-- The file systems are the same but for the order in which directories list their entries. -/
structure Relisted (p p' : Place) : Prop where
  top : p.top.Relisted p'.top
  workingDirectory : p.workingDirectory = p'.workingDirectory

variable {p p' : Place} {path : String} {t : FileTree}

theorem Relisted.resolve (h : p.Relisted p') (path : String) :
    Option.Rel FileTree.Relisted (p.resolve path) (p'.resolve path) := by
  rw [Place.resolve, Place.resolve, componentsOf, componentsOf, h.workingDirectory]
  split_ifs
  · exact .none
  · exact h.top.follow .nil
  · exact h.top.follow .nil

theorem no_slash_of_mem_componentsOf (hp : p.WellFormed) (path : String) :
    ∀ c ∈ p.componentsOf path, '/' ∉ c.toList := by
  intro c hc
  rw [componentsOf] at hc
  split_ifs at hc
  · exact no_slash_of_mem_components hc
  · rcases List.mem_append.mp hc with hc | hc
    · exact (hp.names c hc).no_slash
    · exact no_slash_of_mem_components hc

theorem isName_of_mem_locate (hp : p.WellFormed) (path : String) :
    ∀ c ∈ p.locate path, IsName c := by
  intro c hc
  exact isName_of_mem_foldl (no_slash_of_mem_componentsOf hp path) (by simp) c
    (List.mem_reverse.mp hc)

theorem WellFormed.resolve (hp : p.WellFormed) (h : p.resolve path = some t) : t.WellFormed := by
  rw [Place.resolve] at h
  split_ifs at h
  exact hp.top.follow (by simp) h

/-- What a path leads to is located at its names. -/
theorem follow_locate (hp : p.WellFormed) (h : p.resolve path = some t) :
    p.top.follow [] (p.locate path) = some t := by
  rw [Place.resolve] at h
  split_ifs at h
  obtain ⟨above, hway⟩ :=
    Descends.foldl .start (no_slash_of_mem_componentsOf hp path) h
  exact hway.follow_eq

/-- A path that is passed on leads from the build directory where it led before. -/
theorem locate_passed (hp : p.WellFormed) (path : String) :
    p.inBuild.locate (p.passed path) = p.locate path := by
  have hbuild : ∀ c ∈ buildDirectory, IsName c := by decide
  have hbase : ∀ c ∈ p.inBuild.workingDirectory, IsName c := fun c hc =>
    (List.mem_append.mp hc).elim (hp.names c) (hbuild c)
  have htarget := isName_of_mem_locate hp path
  have hleads := normalize_append_relativeFrom hbase htarget
  have hparts : ∀ c ∈ relativeFrom p.inBuild.workingDirectory (p.locate path),
      c ≠ "" ∧ '/' ∉ c.toList := fun c hc => of_mem_relativeFrom htarget hc
  rw [passed, locate, componentsOf]
  cases hrelative : relativeFrom p.inBuild.workingDirectory (p.locate path) with
  | nil =>
    have hdot : components "." = ["."] := by decide
    rw [hrelative, List.append_nil] at hleads
    rw [if_neg (by decide), hdot, normalize, List.foldl_append]
    simpa [descend, normalize] using hleads
  | cons c cs =>
    rw [hrelative] at hleads hparts
    obtain ⟨hne, hslash⟩ := hparts c List.mem_cons_self
    rw [if_neg (head?_intercalate hne hslash),
      components_intercalate (by simp) fun d hd => (hparts d hd).2, hleads]

end Place

end Markup.Suite
