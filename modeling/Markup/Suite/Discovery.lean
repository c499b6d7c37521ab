import Markup.Suite.FileTree

/-!
# Finding test files

A path that leads to a file is itself a test file.  A path that leads to a directory stands for
the files below it whose names end in `.ut.py`: those of a directory by name, then those of its
subdirectories, which are taken by name too.  The order in which a directory lists its entries
does not matter.  Found paths begin with the path that was given.
-/

namespace Markup.Suite

/-- How the names of test files end. -/
def testEnding : List Char := ".ut.py".toList

/-- Whether a name is that of a test file. -/
def isTestName (name : String) : Bool := testEnding.isSuffixOf name.toList

/-- A name below a directory path. -/
def joinPath (directory name : String) : String :=
  if directory.toList.getLast? = some '/' then directory ++ name else directory ++ "/" ++ name

/-- The names of the files among some entries. -/
def fileNames : List (String × FileTree) → List (String × Unit)
  | [] => []
  | (name, .file) :: es => (name, ()) :: fileNames es
  | (_, .directory _) :: es => fileNames es

mutual

/-- The test files below a tree at some path. -/
def testsBelow (path : String) : FileTree → List String
  | .file => []
  | .directory entries =>
    let here := (Entries.sorted (fileNames entries)).filter fun e => isTestName e.1
    here.map (fun e => joinPath path e.1) ++
      (Entries.sorted (testsInDirectories path entries)).flatMap (·.2)

/-- The test files below each directory among some entries. -/
def testsInDirectories (path : String) : List (String × FileTree) → List (String × List String)
  | [] => []
  | (name, tree) :: es =>
    match tree with
    | .file => testsInDirectories path es
    | .directory below =>
      (name, testsBelow (joinPath path name) (.directory below)) :: testsInDirectories path es

end

/-- The test files that a path stands for. -/
def testsAt (p : Place) (path : String) : List String :=
  match p.resolve path with
  | none => []
  | some .file => [path]
  | some (.directory entries) => testsBelow path (.directory entries)

/-- The test files that some paths stand for, path by path. -/
def findTests (p : Place) (paths : List String) : Except Fault (List String) := do
  return (← FileTree.checkedPaths paths).flatMap (testsAt p)

end Markup.Suite
