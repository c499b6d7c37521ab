import Markup.Entries
import Markup.Fault
import Markup.Text.Blank

/-!
# File trees

A file tree is a file or a directory of named trees.  A `Place` is a whole file system, seen from a
working directory in it.  Paths are resolved component by component, from the top if they start
with a slash and from the working directory otherwise: empty and dotted components stay where they
are, which only a directory allows, and two dots go back to the directory above, if there is one.
The null character ends a path where paths are read, so none may hold it.

Links are left out, and so are special files: a pipe or a socket is neither a file nor a directory
here, whatever its name.
-/

namespace Markup.Suite

/-- A file, or a directory of named trees. -/
inductive FileTree where
  | file
  | directory (entries : List (String × FileTree))

namespace FileTree

/-- The components of a path between slashes. -/
def components (path : String) : List String :=
  (Text.splitAt (· == '/') path.toList).map String.ofList

/-- Some paths, unless one of them holds the null character. -/
def checkedPaths (paths : List String) : Except Fault (List String) :=
  if paths.any fun path => path.toList.contains '\x00' then .error .outOfBounds else .ok paths

/-- Puts a tree at a path of plain names, making directories on the way; what is there stays. -/
def insert (leaf : FileTree) : List String → List (String × FileTree) → List (String × FileTree)
  | [], entries => entries
  | [name], entries =>
    if entries.any (·.1 = name) then entries else entries ++ [(name, leaf)]
  | name :: rest, entries =>
    if entries.any (·.1 = name) then
      entries.map fun e =>
        if e.1 = name then
          match e.2 with
          | .directory below => (name, .directory (insert leaf rest below))
          | .file => e
        else e
    else entries ++ [(name, .directory (insert leaf rest []))]

/--
Makes a file at a path, which starts at `here`, and every directory that the path goes through,
also those that two dots leave again.
-/
def createFile (here : List String) :
    List String → List (String × FileTree) → List (String × FileTree)
  | [], entries => entries
  | [name], entries => insert .file (here ++ [name]) entries
  | name :: rest, entries =>
    if name = ".." then createFile here.dropLast rest entries
    else
      let directory := here ++ [name]
      createFile directory rest (insert (.directory []) directory entries)

/-- A directory that holds files at some paths. -/
def ofPaths (paths : List String) : FileTree :=
  .directory <| paths.foldl (fun entries path =>
    createFile [] ((components path).filter fun c => c != "" && c != ".") entries) []

/-- Follows components from a directory; `above` are the directories it lies in. -/
def follow (above : List FileTree) (here : FileTree) : List String → Option FileTree
  | [] => some here
  | name :: rest =>
    match here with
    | .file => none
    | .directory entries =>
      if name = "" ∨ name = "." then follow above here rest
      else if name = ".." then
        match above with
        | [] => follow [] here rest
        | parent :: above => follow above parent rest
      else match Entries.get? entries name with
        | some below => follow (here :: above) below rest
        | none => none

end FileTree

/-- A file system from its top, and the names on the way down to the working directory. -/
structure Place where
  top : FileTree
  workingDirectory : List String

namespace Place

/-- A working directory that holds files at some paths, in a file system with nothing else. -/
def ofPaths (paths : List String) : Place :=
  ⟨.directory [("home", .ofPaths paths)], ["home"]⟩

/-- The components of a path from the top. -/
def componentsOf (p : Place) (path : String) : List String :=
  if path.toList.head? = some '/' then FileTree.components path
  else p.workingDirectory ++ FileTree.components path

/-- What a path leads to; the empty path leads nowhere. -/
def resolve (p : Place) (path : String) : Option FileTree :=
  if path.isEmpty then none else p.top.follow [] (p.componentsOf path)

end Place

end Markup.Suite
