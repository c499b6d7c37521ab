import Markup.Proofs.Entries.Sorted
import Markup.Proofs.Suite.FileTree

/-!
# Which test files are found, and in which order

`FileTree.HasTest` says that a route, the names of directories and then that of a file, leads to a
test file, and `Before` in which order routes are taken: the files of a directory by name, then its
subdirectories by name.  What is found below a directory is told by these two: a route to each test
file, each before the next (`testsBelow_eq_map`, `mem_testRoutes`, `pairwise_testRoutes`).  Since no
two routes are before one another, this leaves one list only, whatever order the directories list
their entries in (`testRoutes_relisted`).
-/

namespace Markup.Suite

/-! ## Routes -/

/-- The route leads to a file with the name of a test file. -/
inductive FileTree.HasTest : FileTree → List String → Prop
  | here {entries : List (String × FileTree)} {name : String} (entry : (name, .file) ∈ entries)
      (ending : isTestName name) : HasTest (.directory entries) [name]
  | inside {entries : List (String × FileTree)} {name : String} {t : FileTree}
      {route : List String} (entry : (name, t) ∈ entries) (rest : HasTest t route) :
      HasTest (.directory entries) (name :: route)

/-- One route is taken before another: files by name, then directories by name. -/
inductive Before : List String → List String → Prop
  | files {a b : String} (less : a < b) : Before [a] [b]
  | above {a d : String} {route : List String} (deeper : route ≠ []) : Before [a] (d :: route)
  | directories {d d' : String} {route route' : List String} (deeper : route ≠ [])
      (deeper' : route' ≠ []) (less : d < d') : Before (d :: route) (d' :: route')
  | within {d : String} {route route' : List String} (rest : Before route route') :
      Before (d :: route) (d :: route')

/-- Where a route leads to from a path: names with slashes between them, behind the path. -/
def under (path : String) (route : List String) : String :=
  (if path.toList.getLast? = some '/' then path else path ++ "/") ++ "/".intercalate route

variable {route route' : List String} {t t' : FileTree} {name path : String}
  {entries : List (String × FileTree)}

theorem Before.ne_nil (h : Before route route') : route ≠ [] ∧ route' ≠ [] := by
  cases h <;> simp

theorem Before.asymm (h : Before route route') : ¬ Before route' route := by
  induction h with
  | files less =>
    intro h
    cases h with
    | files less' => exact lt_asymm less less'
    | within rest => exact rest.ne_nil.1 rfl
    | _ => simp_all
  | above deeper =>
    intro h
    cases h with
    | within rest => exact rest.ne_nil.2 rfl
    | _ => simp_all
  | directories deeper deeper' less =>
    intro h
    cases h with
    | directories _ _ less' => exact lt_asymm less less'
    | _ => simp_all
  | within rest ih =>
    intro h
    cases h with
    | within rest' => exact ih rest'
    | above => exact rest.ne_nil.2 rfl
    | _ => simp_all

theorem nodup_of_before {routes : List (List String)} (h : routes.Pairwise Before) :
    routes.Nodup := by
  refine h.imp fun hbefore heq => ?_
  subst heq
  exact hbefore.asymm hbefore

/-- Routes in this order are told by which they are. -/
theorem eq_of_before {routes routes' : List (List String)} (h : routes.Pairwise Before)
    (h' : routes'.Pairwise Before) (hmem : ∀ route, route ∈ routes ↔ route ∈ routes') :
    routes = routes' :=
  List.Perm.eq_of_pairwise (fun _ _ _ _ hbefore hafter => absurd hafter hbefore.asymm) h h'
    ((List.perm_ext_iff_of_nodup (nodup_of_before h) (nodup_of_before h')).mpr hmem)

namespace FileTree

theorem HasTest.ne_nil (h : t.HasTest route) : route ≠ [] := by
  cases h <;> simp

theorem HasTest.relisted (h : t.HasTest route) (ht : t.Relisted t') : t'.HasTest route := by
  induction h generalizing t' with
  | here entry ending =>
    cases ht with
    | directory names below =>
      obtain ⟨t', entry'⟩ := exists_mem_of_perm names entry
      cases below _ _ _ entry entry' with
      | file => exact .here entry' ending
  | inside entry _ ih =>
    cases ht with
    | directory names below =>
      obtain ⟨t', entry'⟩ := exists_mem_of_perm names entry
      exact .inside entry' (ih (below _ _ _ entry entry'))

end FileTree

/-! ## The entries of a directory -/

theorem mem_fileNames : (name, ()) ∈ fileNames entries ↔ (name, .file) ∈ entries := by
  induction entries with
  | nil => simp [fileNames]
  | cons e entries ih =>
    obtain ⟨name', t⟩ := e
    cases t <;> simp [fileNames, ih]

theorem keys_fileNames (entries : List (String × FileTree)) :
    (Entries.keys (fileNames entries)).Sublist (Entries.keys entries) := by
  induction entries with
  | nil => simp [fileNames, Entries.keys]
  | cons e entries ih =>
    obtain ⟨name, t⟩ := e
    cases t with
    | file => exact ih.cons_cons name
    | directory below => exact ih.cons name

namespace FileTree

mutual

/-- The routes to the test files below a tree, in the order in which they are found. -/
def testRoutes : FileTree → List (List String)
  | .file => []
  | .directory entries =>
    ((Entries.sorted (fileNames entries)).filter fun e => isTestName e.1).map (fun e => [e.1]) ++
      (Entries.sorted (routesInDirectories entries)).flatMap (·.2)

/-- The routes to the test files below each directory among some entries. -/
def routesInDirectories : List (String × FileTree) → List (String × List (List String))
  | [] => []
  | (name, tree) :: es =>
    match tree with
    | .file => routesInDirectories es
    | .directory below =>
      (name, (testRoutes (.directory below)).map (name :: ·)) :: routesInDirectories es

end

theorem mem_routesInDirectories {routes : List (List String)} :
    (name, routes) ∈ routesInDirectories entries ↔ ∃ below,
      (name, .directory below) ∈ entries ∧
        routes = (testRoutes (.directory below)).map (name :: ·) := by
  induction entries with
  | nil => simp [routesInDirectories]
  | cons e entries ih =>
    obtain ⟨name', t⟩ := e
    cases t with
    | file => simp [routesInDirectories, ih]
    | directory below =>
      rw [routesInDirectories, List.mem_cons, ih, Prod.mk.injEq]
      constructor
      · rintro (⟨rfl, rfl⟩ | ⟨below', hentry, hroutes⟩)
        · exact ⟨below, List.mem_cons_self, rfl⟩
        · exact ⟨below', List.mem_cons_of_mem _ hentry, hroutes⟩
      · rintro ⟨below', hentry, hroutes⟩
        rcases List.mem_cons.mp hentry with heq | hentry
        · cases heq
          exact .inl ⟨rfl, hroutes⟩
        · exact .inr ⟨below', hentry, hroutes⟩

theorem keys_routesInDirectories (entries : List (String × FileTree)) :
    (Entries.keys (routesInDirectories entries)).Sublist (Entries.keys entries) := by
  induction entries with
  | nil => simp [routesInDirectories, Entries.keys]
  | cons e entries ih =>
    obtain ⟨name, t⟩ := e
    cases t with
    | file =>
      rw [routesInDirectories]
      exact ih.cons name
    | directory below =>
      rw [routesInDirectories]
      exact ih.cons_cons name

/-- The routes are those to the test files. -/
theorem mem_testRoutes : route ∈ t.testRoutes ↔ t.HasTest route := by
  induction t generalizing route with
  | file =>
    refine ⟨fun h => by simp [testRoutes] at h, fun h => nomatch h⟩
  | directory entries ih =>
    simp only [testRoutes, List.mem_append, List.mem_map, List.mem_filter, Entries.mem_sorted,
      List.mem_flatMap]
    constructor
    · rintro (⟨⟨name, ⟨⟩⟩, ⟨hentry, hending⟩, rfl⟩ | ⟨⟨name, routes⟩, hroutes, hroute⟩)
      · exact .here (mem_fileNames.mp hentry) hending
      · obtain ⟨below, hentry, rfl⟩ := mem_routesInDirectories.mp hroutes
        obtain ⟨rest, hrest, rfl⟩ := List.mem_map.mp hroute
        exact .inside hentry ((ih _ hentry).mp hrest)
    · intro h
      cases h with
      | @here _ name entry ending =>
        exact .inl ⟨(name, ()), ⟨mem_fileNames.mpr entry, ending⟩, rfl⟩
      | @inside _ name t rest entry hrest =>
        cases t with
        | file => cases hrest
        | directory below =>
          exact .inr ⟨_, mem_routesInDirectories.mpr ⟨below, entry, rfl⟩,
            List.mem_map_of_mem ((ih _ entry).mpr hrest)⟩

/-- Each route is taken before the next one. -/
theorem pairwise_testRoutes (h : t.WellFormed) : t.testRoutes.Pairwise Before := by
  induction t with
  | file => simp [testRoutes]
  | directory entries ih =>
    cases h with
    | directory different names below =>
      have hnonempty : ∀ e ∈ routesInDirectories entries, ∀ route ∈ e.2,
          ∃ rest, rest ≠ [] ∧ route = e.1 :: rest := by
        rintro ⟨name, routes⟩ he route hroute
        obtain ⟨below, hentry, rfl⟩ := mem_routesInDirectories.mp he
        obtain ⟨rest, hrest, rfl⟩ := List.mem_map.mp hroute
        exact ⟨rest, (mem_testRoutes.mp hrest).ne_nil, rfl⟩
      rw [testRoutes, List.pairwise_append, List.pairwise_flatMap, List.pairwise_map]
      refine ⟨?_, ⟨?_, ?_⟩, ?_⟩
      · have hsorted := Entries.pairwise_lt_sorted ((keys_fileNames entries).nodup different)
        exact (hsorted.filter _).imp .files
      · rintro ⟨name, routes⟩ he
        obtain ⟨below', hentry, rfl⟩ := mem_routesInDirectories.mp (Entries.mem_sorted.mp he)
        exact List.pairwise_map.mpr ((ih _ hentry (below _ hentry)).imp .within)
      · have hsorted :=
          Entries.pairwise_lt_sorted ((keys_routesInDirectories entries).nodup different)
        refine hsorted.imp_of_mem fun {e e'} he he' hless route hroute route' hroute' => ?_
        obtain ⟨rest, hrest, rfl⟩ := hnonempty e (Entries.mem_sorted.mp he) route hroute
        obtain ⟨rest', hrest', rfl⟩ := hnonempty e' (Entries.mem_sorted.mp he') route' hroute'
        exact .directories hrest hrest' hless
      · intro route hroute route' hroute'
        obtain ⟨e, -, rfl⟩ := List.mem_map.mp hroute
        obtain ⟨e', he', hroute'⟩ := List.mem_flatMap.mp hroute'
        obtain ⟨rest, hrest, rfl⟩ := hnonempty e' (Entries.mem_sorted.mp he') route' hroute'
        exact .above hrest

/-- The order in which directories list their entries does not matter. -/
theorem testRoutes_relisted (h : t.WellFormed) (ht : t.Relisted t') :
    t.testRoutes = t'.testRoutes := by
  refine eq_of_before (pairwise_testRoutes h) (pairwise_testRoutes (h.relisted ht)) fun route => ?_
  rw [mem_testRoutes, mem_testRoutes]
  exact ⟨fun hroute => hroute.relisted ht, fun hroute => hroute.relisted ht.symm⟩

end FileTree

/-! ## The paths of what is found -/

theorem joinPath_eq (path name : String) : joinPath path name = under path [name] := by
  rw [joinPath, under]
  split_ifs <;> simp [String.append_assoc]

/-- Below a directory that was joined to a path, routes go on from there. -/
theorem under_joinPath (hname : FileTree.IsName name) (hne : route ≠ []) :
    under (joinPath path name) route = under path (name :: route) := by
  have hnonempty : name.toList ≠ [] := by simpa using hname.not_empty
  have hlast : (joinPath path name).toList.getLast? ≠ some '/' := by
    rw [joinPath_eq, under, String.intercalate_singleton, String.toList_append,
      List.getLast?_append_of_ne_nil _ hnonempty]
    exact fun hslash => hname.no_slash (List.mem_of_getLast? hslash)
  rw [under, if_neg hlast, joinPath_eq, under, under, String.intercalate_cons_of_ne_nil hne]
  simp [String.append_assoc]

theorem testsInDirectories_eq_map
    (h : ∀ e ∈ entries, ∀ path, testsBelow path e.2 = e.2.testRoutes.map (under path))
    (hnames : ∀ e ∈ entries, FileTree.IsName e.1) (path : String) :
    testsInDirectories path entries =
      (FileTree.routesInDirectories entries).map fun e => (e.1, e.2.map (under path)) := by
  induction entries with
  | nil => simp [testsInDirectories, FileTree.routesInDirectories]
  | cons e entries ih =>
    obtain ⟨hfirst, hrest⟩ := List.forall_mem_cons.mp h
    obtain ⟨hname, hothers⟩ := List.forall_mem_cons.mp hnames
    obtain ⟨name, t⟩ := e
    cases t with
    | file => simpa [testsInDirectories, FileTree.routesInDirectories] using ih hrest hothers
    | directory below =>
      have hroutes : ((FileTree.directory below).testRoutes.map (name :: ·)).map (under path) =
          (FileTree.directory below).testRoutes.map (under (joinPath path name)) := by
        rw [List.map_map]
        refine List.map_congr_left fun route hroute => ?_
        exact (under_joinPath hname (FileTree.mem_testRoutes.mp hroute).ne_nil).symm
      rw [testsInDirectories, FileTree.routesInDirectories, List.map_cons, ih hrest hothers,
        hfirst, hroutes]

/-- The test files below a tree are found at the routes to them. -/
theorem testsBelow_eq_map (ht : t.WellFormed) (path : String) :
    testsBelow path t = t.testRoutes.map (under path) := by
  induction t generalizing path with
  | file => simp [testsBelow, FileTree.testRoutes]
  | directory entries ih =>
    cases ht with
    | directory different names below =>
      have hdirectories :=
        testsInDirectories_eq_map (fun e he path => ih e he (below e he) path) names path
      rw [testsBelow, FileTree.testRoutes, hdirectories, Entries.sorted_map_snd]
      simp [joinPath_eq, List.flatMap_map, List.map_flatMap]

/-- Routes of names are told by where they lead to. -/
theorem under_injective (h : ∀ name ∈ route, FileTree.IsName name)
    (h' : ∀ name ∈ route', FileTree.IsName name) (hne : route ≠ []) (hne' : route' ≠ [])
    (heq : under path route = under path route') : route = route' := by
  rw [under, under, String.append_right_inj] at heq
  rw [← components_intercalate hne fun c hc => (h c hc).no_slash, heq,
    components_intercalate hne' fun c hc => (h' c hc).no_slash]

/-- A route to a test file is one of names, which lead there. -/
theorem FileTree.HasTest.follow_eq (h : t.HasTest route) (ht : t.WellFormed) :
    (∀ name ∈ route, IsName name) ∧ follow [] t route = some .file := by
  induction h with
  | @here entries name entry ending =>
    cases ht with
    | directory different names below =>
      have hname := names _ entry
      refine ⟨by simpa using hname, ?_⟩
      rw [follow_entry _ hname.not_skipped hname.not_dots, Entries.get?_of_mem different entry]
      simp
  | @inside entries name t route entry rest ih =>
    cases ht with
    | directory different names below =>
      have hname := names _ entry
      obtain ⟨hroute, hfollow⟩ := ih (below _ entry)
      refine ⟨List.forall_mem_cons.mpr ⟨hname, hroute⟩, ?_⟩
      rw [follow_entry _ hname.not_skipped hname.not_dots, Entries.get?_of_mem different entry,
        Option.bind_some, follow_names hroute, hfollow]

namespace Place

variable {p p' : Place}

/-- A path with a route below it goes on after the path, with one slash between them. -/
theorem exists_under_eq (path : String) (route : List String) :
    ∃ stem, under path route = stem ++ "/" ++ "/".intercalate route ∧
      (path = stem ∨ path = stem ++ "/") := by
  by_cases hslash : path.toList.getLast? = some '/'
  · obtain ⟨cs, hcs⟩ := List.getLast?_eq_some_iff.mp hslash
    have hpath : path = String.ofList cs ++ "/" := by
      rw [← String.toList_inj, hcs]
      simp
    refine ⟨String.ofList cs, ?_, .inr hpath⟩
    rw [under, if_pos hslash, ← hpath]
  · exact ⟨path, by rw [under, if_neg hslash], .inl rfl⟩

theorem exists_under_eq_append (path : String) (route : List String) :
    ∃ s, under path route = path ++ s := by
  rw [under]
  split_ifs
  · exact ⟨_, rfl⟩
  · exact ⟨"/" ++ "/".intercalate route, by rw [String.append_assoc]⟩

/-- The components of a path below a directory are those of the directory, then the route. -/
theorem exists_componentsOf_under (hpath : path ≠ "") (hne : route ≠ [])
    (hroute : ∀ name ∈ route, FileTree.IsName name) :
    ∃ cs, p.componentsOf (under path route) = cs ++ route ∧
      (p.componentsOf path = cs ∨ p.componentsOf path = cs ++ [""]) := by
  obtain ⟨stem, hstem, hend⟩ := exists_under_eq path route
  have hnonempty : path.toList ≠ [] := by simpa using hpath
  have hhead : (under path route).toList.head? = path.toList.head? := by
    obtain ⟨s, hs⟩ := exists_under_eq_append path route
    rw [hs, String.toList_append, List.head?_append_of_ne_nil _ hnonempty]
  have hroutes : FileTree.components (under path route) = FileTree.components stem ++ route := by
    rw [hstem, components_append, components_intercalate hne fun c hc => (hroute c hc).no_slash]
  have hdirectory : FileTree.components path = FileTree.components stem ∨
      FileTree.components path = FileTree.components stem ++ [""] := by
    have hempty : FileTree.components "" = [""] := by decide
    have hslash := components_append stem ""
    rw [String.append_empty, hempty] at hslash
    exact hend.imp (by rintro rfl; rfl) (by rintro rfl; exact hslash)
  rw [componentsOf, componentsOf, hhead, hroutes]
  split_ifs
  · exact ⟨_, rfl, hdirectory⟩
  · refine ⟨p.workingDirectory ++ FileTree.components stem, by simp, ?_⟩
    exact hdirectory.imp (by simp +contextual) (by simp +contextual)

/-- What is found at a route from a path, the path leads to. -/
theorem resolve_under {t : FileTree} (h : p.resolve path = some t) (ht : t.WellFormed)
    (hroute : t.HasTest route) : p.resolve (under path route) = some .file := by
  obtain ⟨hnames, hfollow⟩ := hroute.follow_eq ht
  rw [resolve] at h
  split_ifs at h with hempty
  have hpath : path ≠ "" := by simpa using hempty
  obtain ⟨cs, hunder, hcs⟩ := exists_componentsOf_under (p := p) hpath hroute.ne_nil hnames
  have hstart : p.top.follow [] cs = some t := by
    rcases hcs with hcs | hcs
    · rwa [hcs] at h
    · rw [hcs] at h
      exact FileTree.follow_of_append_empty h
  have hnonempty : (under path route).isEmpty = false := by
    obtain ⟨s, hs⟩ := exists_under_eq_append path route
    simp [hs, hpath]
  rw [resolve, hnonempty, hunder, FileTree.follow_append_names cs hnames, hstart]
  simpa using hfollow

/-- What a path stands for: nothing, a file itself, or the test files below a directory. -/
inductive Finds (p : Place) (path : String) : List String → Prop
  | nothing (leads : p.resolve path = none) : Finds p path []
  | file (leads : p.resolve path = some .file) : Finds p path [path]
  | below {entries : List (String × FileTree)} {routes : List (List String)}
      (leads : p.resolve path = some (.directory entries))
      (all : ∀ route, route ∈ routes ↔ (FileTree.directory entries).HasTest route)
      (ordered : routes.Pairwise Before) : Finds p path (routes.map (under path))

theorem finds_testsAt (hp : p.WellFormed) (path : String) : p.Finds path (testsAt p path) := by
  rw [testsAt]
  cases h : p.resolve path with
  | none => exact .nothing h
  | some t =>
    have ht := hp.resolve h
    cases t with
    | file => exact .file h
    | directory entries =>
      dsimp only
      rw [testsBelow_eq_map ht]
      exact .below h (fun _ => FileTree.mem_testRoutes) (FileTree.pairwise_testRoutes ht)

theorem Finds.nodup {found : List String} (hp : p.WellFormed) (h : p.Finds path found) :
    found.Nodup := by
  cases h with
  | nothing => exact .nil
  | file => exact List.nodup_singleton path
  | @below entries routes leads all ordered =>
    refine (nodup_of_before ordered).map_on fun route hroute route' hroute' heq => ?_
    have htest := (all route).mp hroute
    have htest' := (all route').mp hroute'
    have ht := hp.resolve leads
    exact under_injective (htest.follow_eq ht).1 (htest'.follow_eq ht).1 htest.ne_nil htest'.ne_nil
      heq

/-- Whatever is found is a file. -/
theorem Finds.resolve {found : List String} (hp : p.WellFormed) (h : p.Finds path found) :
    ∀ file ∈ found, p.resolve file = some .file := by
  cases h with
  | nothing => simp
  | file leads => simpa using leads
  | below leads all =>
    exact List.forall_mem_map.mpr fun route hroute =>
      resolve_under leads (hp.resolve leads) ((all route).mp hroute)

theorem testsAt_relisted (hp : p.WellFormed) (h : p.Relisted p') (path : String) :
    testsAt p path = testsAt p' path := by
  have hrelisted := h.resolve path
  rw [testsAt, testsAt]
  cases hleads : p.resolve path with
  | none =>
    cases hleads' : p'.resolve path with
    | none => rfl
    | some t' => simp [hleads, hleads'] at hrelisted
  | some t =>
    cases hleads' : p'.resolve path with
    | none => simp [hleads, hleads'] at hrelisted
    | some t' =>
      rw [hleads, hleads', Option.rel_some_some] at hrelisted
      have ht := hp.resolve hleads
      cases hrelisted with
      | file => rfl
      | directory names below =>
        have hsame : FileTree.Relisted _ _ := .directory names below
        dsimp only
        rw [testsBelow_eq_map ht, testsBelow_eq_map (ht.relisted hsame),
          FileTree.testRoutes_relisted ht hsame]

end Place

end Markup.Suite
