import SolutionLists.Files.Tree

namespace SolutionLists.FileTree

/-! Files and directories as a generator handles them: directories are made and
removed as needed, and a file is written only where its text changes. -/

inductive Failure where
  | makeDirectory (path : String) (fault : FileFault)
  | removeDirectory (path : String) (fault : FileFault)
  | read (path : String) (fault : FileFault)
  | write (path : String) (fault : FileFault)
deriving DecidableEq, Repr

namespace Failure

def summary : Failure → String
  | makeDirectory path _ => "failed to create directory: " ++ path
  | removeDirectory path _ => "failed to remove directory: " ++ path
  | read path _ => "failed to read file: " ++ path
  | write path _ => "failed to write file: " ++ path

def fault : Failure → FileFault
  | makeDirectory _ fault | removeDirectory _ fault | read _ fault | write _ fault => fault

def message (failure : Failure) : String :=
  failure.summary ++ ": " ++ failure.fault.message

end Failure

/-- An operation hands back its answer, or why there is none, with the tree it leaves
behind. -/
structure Outcome (α : Type) where
  tree : FileTree
  result : Except Failure α

def Change.toOutcome (change : Change) (failure : FileFault → Failure) : Outcome Unit where
  tree := change.tree
  result :=
    match change.fault with
    | none => .ok ()
    | some fault => .error (failure fault)

def ensureDirectory (tree : FileTree) (path : String) : Outcome Unit :=
  if tree.has path then ⟨tree, .ok ()⟩
  else (tree.makeDirectories path).toOutcome (.makeDirectory path)

def clearDirectory (tree : FileTree) (path : String) : Outcome Unit :=
  if tree.has path then (tree.removeDirectory path).toOutcome (.removeDirectory path)
  else ⟨tree, .ok ()⟩

def readText (tree : FileTree) (path : String) : Except Failure String :=
  match tree.read path with
  | .ok text => .ok text
  | .error fault => .error (.read path fault)

/-- Write a file unless it already holds the text; tells whether it was written.
Missing directories above it are made. -/
def update (tree : FileTree) (path text : String) : Outcome Bool :=
  match tree.read path with
  | .ok present => if present = text then ⟨tree, .ok false⟩ else replace tree
  | .error _ => replace tree
where
  replace (tree : FileTree) : Outcome Bool :=
    let prepared :=
      match Path.dropLastComponent? path with
      | some above => ensureDirectory tree above
      | none => ⟨tree, .ok ()⟩
    match prepared.result with
    | .error failure => ⟨prepared.tree, .error failure⟩
    | .ok () =>
        match prepared.tree.write path text with
        | .ok written => ⟨written, .ok true⟩
        | .error fault => ⟨prepared.tree, .error (.write path fault)⟩

end SolutionLists.FileTree
