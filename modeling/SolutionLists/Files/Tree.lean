import SolutionLists.Path.Component

namespace SolutionLists

/-! Files and directories of a machine. Places are lists of names, innermost first;
paths are walked as an operating system does, so `..` counts only in a directory
that is there. -/

abbrev Place := List String

inductive FileEntry where
  | file (text : String)
  | directory
deriving DecidableEq, Repr

inductive FileFault where
  | missing
  | present
  | notDirectory
  | isDirectory
  | invalid
deriving DecidableEq, Repr

def FileFault.message : FileFault → String
  | missing => "No such file or directory (os error 2)"
  | present => "File exists (os error 17)"
  | notDirectory => "Not a directory (os error 20)"
  | isDirectory => "Is a directory (os error 21)"
  | invalid => "Invalid argument (os error 22)"

/-- Every place but the root directory is entered by its own. -/
structure FileTree where
  entries : List (Place × FileEntry) := []
  workingDirectory : Place := []
deriving DecidableEq, Repr, Inhabited

namespace FileTree

def find? (tree : FileTree) (place : Place) : Option FileEntry :=
  match place with
  | [] => some .directory
  | _ => tree.entries.lookup place

def isDirectoryAt (tree : FileTree) (place : Place) : Bool :=
  tree.find? place = some .directory

def step (tree : FileTree) (place : Place) (segment : Path.Segment) : Except FileFault Place :=
  match tree.find? place with
  | none => .error .missing
  | some (.file _) => .error .notDirectory
  | some .directory =>
      if segment = [] ∨ segment = ['.'] then .ok place
      else if segment = Path.ascend then .ok place.tail
      else .ok (String.ofList segment :: place)

/-- The place that a path leads to. Everything on the way is there; what is at the
place itself is not looked at. -/
def walk (tree : FileTree) (path : String) : Except FileFault Place :=
  if path = "" then .error .missing
  else
    (path.toList.splitOn '/').foldlM tree.step
      (if Path.isRooted path then [] else tree.workingDirectory)

def look (tree : FileTree) (path : String) : Except FileFault (Place × FileEntry) :=
  match tree.walk path with
  | .error fault => .error fault
  | .ok place =>
      match tree.find? place with
      | none => .error .missing
      | some entry => .ok (place, entry)

def has (tree : FileTree) (path : String) : Bool :=
  (tree.look path).isOk

def isFile (tree : FileTree) (path : String) : Bool :=
  match tree.look path with
  | .ok (_, .file _) => true
  | _ => false

def isDirectory (tree : FileTree) (path : String) : Bool :=
  match tree.look path with
  | .ok (_, .directory) => true
  | _ => false

def read (tree : FileTree) (path : String) : Except FileFault String :=
  match tree.look path with
  | .error fault => .error fault
  | .ok (_, .directory) => .error .isDirectory
  | .ok (_, .file text) => .ok text

def names (tree : FileTree) (path : String) : Except FileFault (List String) :=
  match tree.look path with
  | .error fault => .error fault
  | .ok (_, .file _) => .error .notDirectory
  | .ok (place, .directory) =>
      .ok <| tree.entries.filterMap fun
        | (name :: above, _) => if above = place then some name else none
        | ([], _) => none

/-! ## Changes -/

def put (tree : FileTree) (place : Place) (entry : FileEntry) : FileTree :=
  { tree with
    entries :=
      if tree.entries.any (·.1 = place) then
        tree.entries.map fun (other, old) => (other, if other = place then entry else old)
      else tree.entries ++ [(place, entry)] }

def write (tree : FileTree) (path text : String) : Except FileFault FileTree :=
  match tree.walk path with
  | .error fault => .error fault
  | .ok place =>
      match tree.find? place with
      | some .directory => .error .isDirectory
      | some (.file _) => .ok (tree.put place (.file text))
      | none =>
          match tree.find? place.tail with
          | some .directory => .ok (tree.put place (.file text))
          | some (.file _) => .error .notDirectory
          | none => .error .missing

def withoutEnd (path : String) : String :=
  let kept := (path.toList.reverse.dropWhile (· = '/')).reverse
  if kept = [] && path ≠ "" then "/" else String.ofList kept

def makeDirectory (tree : FileTree) (path : String) : Except FileFault FileTree :=
  match tree.walk (withoutEnd path) with
  | .error fault => .error fault
  | .ok place =>
      match tree.find? place with
      | some _ => .error .present
      | none => .ok (tree.put place .directory)

/-- What a change leaves behind, also where it fails on its way. -/
structure Change where
  tree : FileTree
  fault : Option FileFault := none
deriving DecidableEq, Repr

/-- Make a directory and those above it. `depth` bounds how many can be missing. -/
def makeDirectoriesWithin : (depth : Nat) → FileTree → String → Change
  | 0, tree, _ => { tree, fault := some .missing }
  | depth + 1, tree, path =>
      let settle := fun (tree : FileTree) =>
        match tree.makeDirectory path with
        | .ok made => { tree := made }
        | .error fault => { tree, fault := if tree.isDirectory path then none else some fault }
      if path = "" then { tree }
      else
        match tree.makeDirectory path, Path.dropLastComponent? path with
        | .error .missing, none => { tree, fault := some .missing }
        | .error .missing, some above =>
            match makeDirectoriesWithin depth tree above with
            | { tree, fault := none } => settle tree
            | failed => failed
        | _, _ => settle tree

def makeDirectories (tree : FileTree) (path : String) : Change :=
  makeDirectoriesWithin (path.length + 2) tree path

def isWithin (outer place : Place) : Bool :=
  outer.isSuffixOf place

def erase (tree : FileTree) (place : Place) : FileTree :=
  { tree with entries := tree.entries.filter fun (other, _) => !isWithin place other }

def empty (tree : FileTree) (place : Place) : FileTree :=
  { tree with
    entries := tree.entries.filter fun (other, _) => other = place || !isWithin place other }

def lastSegment (path : String) : Path.Segment :=
  ((withoutEnd path).toList.reverse.takeWhile (· ≠ '/')).reverse

/-- Remove a directory with its contents. The contents go first; then the directory
is removed by its path once more, which fails for a path that ends in `.` and does
nothing where the path leads through what is gone. -/
def removeDirectory (tree : FileTree) (path : String) : Change :=
  match tree.look path with
  | .error fault => { tree, fault := some fault }
  | .ok (_, .file _) => { tree, fault := some .notDirectory }
  | .ok (place, .directory) =>
      let emptied := tree.empty place
      if lastSegment path = ['.'] then { tree := emptied, fault := some .invalid }
      else if lastSegment path = Path.ascend then { tree := emptied }
      else
        match emptied.look path with
        | .ok (place, _) => { tree := emptied.erase place }
        | .error _ => { tree := emptied }

def removeFile (tree : FileTree) (path : String) : Except FileFault FileTree :=
  match tree.look path with
  | .error fault => .error fault
  | .ok (_, .directory) => .error .isDirectory
  | .ok (place, .file _) => .ok (tree.erase place)

/-! ## Paths of places -/

def pathOf (place : Place) : String :=
  "/" ++ "/".intercalate place.reverse

def canonical (tree : FileTree) (path : String) : String :=
  match tree.look path with
  | .ok (place, _) => pathOf place
  | .error _ => path

/-- A path from the root directory, whether or not it leads to something. Ascents
stay as they are. -/
def absolute (tree : FileTree) (path : String) : String :=
  let parts := (Path.components path).filter (· ≠ .current)
  let fromRoot :=
    if Path.isRooted path then parts
    else .root :: tree.workingDirectory.reverse.map Path.Component.name ++ parts
  Path.ofComponents fromRoot ++
    (if path.toList.getLast? = some '/' && fromRoot.length > 1 then "/" else "")

def filesBelow (tree : FileTree) (place : Place) : List String :=
  tree.entries.filterMap fun
    | (other, .file _) =>
        if isWithin place other then
          some ("/".intercalate (other.take (other.length - place.length)).reverse)
        else none
    | (_, .directory) => none

end FileTree

end SolutionLists
