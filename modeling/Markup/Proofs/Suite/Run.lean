import Markup.Proofs.Computation
import Markup.Proofs.Suite.Discovery

/-!
# What a run of the test files does

The runner goes through what was found, one file at a time.  `outcomes` are the files with the exit
codes of their runs, in order; all that a run prints, runs and returns is told by them
(`Summary.Reports`).  What a step adds depends on what was done before only by the number of the
run, so the whole is a run over the list (`foldl_runTest`).

There is no run where a path holds the null character, nor where a file is in the way of the build
directory.
-/

namespace Markup.Suite

/-- Files with the exit codes of their runs, of which the first has the given number. -/
def outcomes (p : Place) (exitCode : Nat → String → Int) (first : Nat) :
    List String → List (String × Int)
  | [] => []
  | path :: paths =>
    (path, exitCode first (p.passed path)) :: outcomes p exitCode (first + 1) paths

/-- The outcomes of the files that failed. -/
def failures (os : List (String × Int)) : List (String × Int) := os.filter (·.2 ≠ 0)

/-- What a run does, by the files that were found and the exit codes of their runs. -/
structure Summary.Reports (s : Summary) (p : Place) (os : List (String × Int)) : Prop where
  output : s.output = String.join
    (os.map fun o => o.1 ++ "\n" ++ if o.2 = 0 then "" else "\n")
  runs : s.runs = os.map fun o => (p.passed o.1, "_build/_utest")
  /-- Seen from the build directory, a path that is run leads to where the file was found. -/
  located : ∀ o ∈ os, p.inBuild.locate (p.passed o.1) = p.locate o.1 ∧
    p.top.follow [] (p.locate o.1) = some .file
  errors : s.errors = if ∀ o ∈ os, o.2 = 0 then "" else
    s!"utest: {(failures os).length} of {os.length} test files failed." ++ "\n"
  exitCode : s.exitCode = if ∀ o ∈ os, o.2 = 0 then 0 else 1

section Loop

variable (p : Place) (exitCode : Nat → String → Int)

theorem map_fst_outcomes (first : Nat) (paths : List String) :
    (outcomes p exitCode first paths).map (·.1) = paths := by
  induction paths generalizing first with
  | nil => simp [outcomes]
  | cons path paths ih => simp [outcomes, ih]

/-- One file after the other adds its announcement, its run and, if it fails, its failure. -/
theorem foldl_runTest (paths : List String) (done : Progress) :
    paths.foldl (runTest p exitCode) done =
      { output := done.output ++ String.join
          ((outcomes p exitCode done.runs.length paths).map fun o => announcement o.1 o.2)
        failed := done.failed ++
          (failures (outcomes p exitCode done.runs.length paths)).map (·.1)
        runs := done.runs ++
          (outcomes p exitCode done.runs.length paths).map fun o =>
            (p.passed o.1, "/".intercalate buildDirectory) } := by
  induction paths generalizing done with
  | nil => simp [outcomes, failures]
  | cons path paths ih =>
    have hlength : (runTest p exitCode done path).runs.length = done.runs.length + 1 := by
      simp [runTest]
    rw [List.foldl_cons, ih, hlength, outcomes]
    by_cases hcode : exitCode done.runs.length (p.passed path) = 0 <;>
      simp [runTest, failures, hcode, String.append_assoc]

theorem failures_eq_nil_iff {os : List (String × Int)} :
    failures os = [] ↔ ∀ o ∈ os, o.2 = 0 := by
  simp [failures, List.filter_eq_nil_iff]

theorem closing_eq (failed paths : List String) :
    closing failed paths = if failed = [] then "" else
      s!"utest: {failed.length} of {paths.length} test files failed." ++ "\n" := by
  simp [closing, Message.lineOfTexts]

end Loop

/-- Any paths can be asked for behind two dashes. -/
theorem requested_dashes {paths : List String} (h : paths ≠ []) :
    requested ("--" :: paths) = .ok paths := by
  simp [requested, h]

namespace Place

variable {p : Place} {paths : List String}

/-- No file is in the way of the build directory. -/
def Clear (p : Place) : Prop :=
  p.resolve "_build" ≠ some .file ∧ p.resolve "_build/_utest" ≠ some .file

theorem Clear.makeBuildDirectory (h : p.Clear) : p.makeBuildDirectory = .ok () := by
  obtain ⟨hbuild, hutest⟩ := h
  rw [Place.makeBuildDirectory]
  split
  · contradiction
  · contradiction
  · rfl

theorem findTests_eq (p : Place) (h : ∀ path ∈ paths, '\x00' ∉ path.toList) :
    findTests p paths = .ok (paths.map (testsAt p)).flatten := by
  have hchecked : FileTree.checkedPaths paths = .ok paths := by
    simpa [FileTree.checkedPaths] using h
  rw [findTests, hchecked, ok_bind, List.flatMap_def]
  rfl

/-- Whatever was found to be a file is run, and reported with the code that its run ends with. -/
theorem exists_reports (hp : p.WellFormed) (hclear : p.Clear) {arguments found : List String}
    (hrequested : requested arguments = .ok paths) (hfound : findTests p paths = .ok found)
    (hfiles : ∀ file ∈ found, p.resolve file = some .file) (exitCode : Nat → String → Int) :
    ∃ s, run p arguments exitCode = .ok s ∧ s.Reports p (outcomes p exitCode 0 found) := by
  have hpaths : (outcomes p exitCode 0 found).map (·.1) = found :=
    map_fst_outcomes p exitCode 0 found
  have hlength : (outcomes p exitCode 0 found).length = found.length := by
    rw [← List.length_map (·.1), hpaths]
  have hnone : (failures (outcomes p exitCode 0 found)).map (·.1) = [] ↔
      ∀ o ∈ outcomes p exitCode 0 found, o.2 = 0 := by
    rw [List.map_eq_nil_iff, failures_eq_nil_iff]
  have hbuild : "/".intercalate buildDirectory = "_build/_utest" := by decide
  have hdone := foldl_runTest p exitCode found .start
  simp only [Progress.start, List.length_nil, List.nil_append, String.empty_append, hbuild]
    at hdone
  rw [run, hrequested, ok_bind, hfound, ok_bind, hclear.makeBuildDirectory, ok_bind]
  refine ⟨_, rfl, ?_, ?_, ?_, ?_, ?_⟩
  · simp [Progress.start, hdone, announcement]
  · simp [Progress.start, hdone]
  · intro o ho
    have hfile : o.1 ∈ found := hpaths ▸ List.mem_map_of_mem ho
    exact ⟨locate_passed hp o.1, follow_locate hp (hfiles o.1 hfile)⟩
  · simp only [Progress.start, hdone, closing_eq, hnone, List.length_map, hlength]
  · simp only [Progress.start, hdone, List.isEmpty_iff, hnone]

end Place

/--
In a well-formed file system, paths without the null character stand for their test files, in an
order that is told by the names alone and not by how directories list them.  If no file is in the
way of the build directory, a run that asks for these paths runs what was found and reports it.
-/
theorem tests_found_and_run {p : Place} (hp : p.WellFormed) {paths : List String}
    (hpaths : ∀ path ∈ paths, '\x00' ∉ path.toList) :
    ∃ found : List (List String), List.Forall₂ p.Finds paths found ∧
      (∀ files ∈ found, files.Nodup ∧ ∀ file ∈ files, p.resolve file = some .file) ∧
      findTests p paths = .ok found.flatten ∧
      (∀ p', p.Relisted p' → findTests p' paths = .ok found.flatten) ∧
      (p.Clear → ∀ arguments exitCode, requested arguments = .ok paths →
        ∃ s, run p arguments exitCode = .ok s ∧
          s.Reports p (outcomes p exitCode 0 found.flatten)) := by
  have hfinds : List.Forall₂ p.Finds paths (paths.map (testsAt p)) :=
    List.forall₂_map_right_iff.mpr
      (List.forall₂_same.mpr fun path _ => Place.finds_testsAt hp path)
  have hfound : findTests p paths = .ok (paths.map (testsAt p)).flatten :=
    Place.findTests_eq p hpaths
  have hfiles : ∀ files ∈ paths.map (testsAt p),
      files.Nodup ∧ ∀ file ∈ files, p.resolve file = some .file :=
    List.forall_mem_map.mpr fun path _ =>
      ⟨(Place.finds_testsAt hp path).nodup hp, (Place.finds_testsAt hp path).resolve hp⟩
  refine ⟨_, hfinds, hfiles, hfound, fun p' hrelisted => ?_, ?_⟩
  · have hsame : testsAt p' = testsAt p :=
      funext fun path => (Place.testsAt_relisted hp hrelisted path).symm
    rw [Place.findTests_eq p' hpaths, hsame]
  · intro hclear arguments exitCode hrequested
    refine Place.exists_reports hp hclear hrequested hfound (fun file hfile => ?_) exitCode
    obtain ⟨files, hmem, hfile⟩ := List.mem_flatten.mp hfile
    exact (hfiles files hmem).2 file hfile

/-- What a directory holds: test files on two levels and another file, listed in no order. -/
def shelf : List (String × FileTree) :=
  [("sub", .directory [("a.ut.py", .file)]), ("b.ut.py", .file), ("notes", .file),
    ("a.ut.py", .file)]

/-- A place with a directory of some entries. -/
def shelved (entries : List (String × FileTree)) : Place :=
  ⟨.directory [("home", .directory [("test", .directory entries)])], ["home"]⟩

theorem wellFormed_shelf : (FileTree.directory shelf).WellFormed := by
  have hsub : (FileTree.directory [("a.ut.py", .file)]).WellFormed :=
    .directory (by decide) (by decide) (by simpa using .file)
  exact .directory (by decide) (by decide) (by simpa [shelf, FileTree.WellFormed.file] using hsub)

theorem wellFormed_shelved : (shelved shelf).WellFormed where
  top := by
    have hhome : (FileTree.directory [("test", .directory shelf)]).WellFormed :=
      .directory (by decide) (by decide) (by simpa using wellFormed_shelf)
    exact .directory (by decide) (by decide) (by simpa using hhome)
  names := by decide

theorem relisted_shelved : (shelved shelf).Relisted (shelved shelf.reverse) where
  top := by
    have hshelf := wellFormed_shelf.relisted_of_perm (List.reverse_perm shelf).symm
    exact (hshelf.only "test").only "home"
  workingDirectory := rfl

theorem findTests_shelved : findTests (shelved shelf) ["test", "nosuch"] =
    .ok ["test/a.ut.py", "test/b.ut.py", "test/sub/a.ut.py"] := by
  have hsorted : Entries.sorted [("b.ut.py", ()), ("notes", ()), ("a.ut.py", ())] =
      [("a.ut.py", ()), ("b.ut.py", ()), ("notes", ())] :=
    Entries.sorted_eq_of_pairwise (by decide) (by decide)
  have htest : (shelved shelf).resolve "test" = some (.directory shelf) := rfl
  have hnosuch : (shelved shelf).resolve "nosuch" = none := rfl
  have hbelow : testsBelow "test" (.directory shelf) =
      ["test/a.ut.py", "test/b.ut.py", "test/sub/a.ut.py"] := by
    simp only [testsBelow, shelf, fileNames, testsInDirectories, hsorted,
      Entries.sorted_singleton, Entries.sorted_nil]
    decide
  simp [findTests, FileTree.checkedPaths, testsAt, htest, hnosuch, hbelow]

/-- The second of three files is killed, which is a failure like any other. -/
theorem tests_found_and_run_shelved :
    findTests (shelved shelf.reverse) ["test", "nosuch"] =
      .ok ["test/a.ut.py", "test/b.ut.py", "test/sub/a.ut.py"] ∧
    ∃ s, run (shelved shelf) ["test", "nosuch"] (fun n _ => if n = 1 then -11 else 0) = .ok s ∧
      s.exitCode = 1 ∧ s.errors = "utest: 1 of 3 test files failed.\n" ∧
      s.output = "test/a.ut.py\ntest/b.ut.py\n\ntest/sub/a.ut.py\n" ∧
      s.runs.map (·.1) =
        ["../../test/a.ut.py", "../../test/b.ut.py", "../../test/sub/a.ut.py"] := by
  obtain ⟨found, -, -, hfound, hrelisted, hrun⟩ :=
    tests_found_and_run wellFormed_shelved (show ∀ path ∈ ["test", "nosuch"], _ by decide)
  rw [findTests_shelved, Except.ok.injEq] at hfound
  rw [← hfound] at hrelisted hrun
  have hbuild : (shelved shelf).resolve "_build" = none := rfl
  have hutest : (shelved shelf).resolve "_build/_utest" = none := rfl
  have hclear : (shelved shelf).Clear := ⟨by simp [hbuild], by simp [hutest]⟩
  obtain ⟨s, hs, hreports⟩ := hrun hclear ["test", "nosuch"]
    (fun n _ => if n = 1 then -11 else 0) (by decide)
  refine ⟨hrelisted _ relisted_shelved, s, hs, ?_, ?_, ?_, ?_⟩
  · rw [hreports.exitCode]
    decide
  · rw [hreports.errors]
    decide
  · rw [hreports.output]
    decide
  · rw [hreports.runs]
    decide

/-- A path may hold what no path can, and a file may be in the way of the build directory. -/
theorem tests_refused :
    ¬ (∀ (p : Place) (path : String), p.WellFormed → p.resolve path = none →
      findTests p [path] = .ok []) ∧
    ¬ ∀ (p : Place) (arguments paths found : List String) (exitCode : Nat → String → Int),
      p.WellFormed → requested arguments = .ok paths → findTests p paths = .ok found →
      ∃ s, run p arguments exitCode = .ok s := by
  constructor
  · intro hall
    have hnul := hall (shelved shelf) "\x00" wellFormed_shelved rfl
    have hrefused : findTests (shelved shelf) ["\x00"] = .error .outOfBounds := rfl
    rw [hrefused] at hnul
    cases hnul
  · intro hall
    have hbuild : FileTree.WellFormed (.directory [("_build", .file)]) :=
      .directory (by decide) (by decide) (by simpa using .file)
    obtain ⟨s, hs⟩ := hall ⟨.directory [("_build", .file)], []⟩ [] defaultPaths []
      (fun _ _ => 0) ⟨hbuild, by decide⟩ rfl rfl
    have hrefused : run ⟨.directory [("_build", .file)], []⟩ [] (fun _ _ => 0) =
        .error .notADirectory := rfl
    rw [hrefused] at hs
    cases hs

end Markup.Suite
