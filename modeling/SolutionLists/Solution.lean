import SolutionLists.Description.Reading
import SolutionLists.Diagnostic
import SolutionLists.Files.Tree
import SolutionLists.Log

namespace SolutionLists

/-! A solution as its files describe it: the index, and a description for each context
that the index refers to. -/

inductive DescriptionError where
  | invalidArgument (path : String)
  | notFound (path : String)
  | malformed (path : String)
deriving DecidableEq, Repr

namespace DescriptionError

def message : DescriptionError → String
  | invalidArgument path => "invalid file argument: " ++ path
  | notFound path => "file " ++ path ++ " was not found"
  | malformed path => "failed to parse " ++ path

def code : DescriptionError → String
  | invalidArgument _ => "cbuild2cmake::description::invalid_argument"
  | notFound _ => "cbuild2cmake::description::not_found"
  | malformed _ => "cbuild2cmake::description::parse"

def hint : DescriptionError → Option String
  | invalidArgument _ => some "pass the solution build index, e.g. `solution.cbuild-idx.yml`"
  | notFound _ => none
  | malformed _ => some Suggestion.regenerateIndex

def diagnostic (error : DescriptionError) : Diagnostic :=
  match error with
  | invalidArgument _ =>
      { message := error.message, context := ["expected a file ending in `.cbuild-idx.yml`"] }
  | notFound _ => { message := error.message }
  | malformed path =>
      { message := "failed to parse build description"
        location := some path
        suggestions := [Suggestion.regenerateIndex] }

def report (error : DescriptionError) : ErrorReport where
  message := error.message
  code := error.code
  hint := error.hint
  diagnostic := error.diagnostic

end DescriptionError

structure ContextDescription where
  reference : ContextReference
  name : String
  /-- Path of the file that holds it. -/
  path : String
  /-- Directory of that file from the root of the solution. -/
  root : String
  context : Context
deriving Repr

structure Solution where
  indexPath : String
  /-- Directory of the index, from the root of the file system. -/
  root : String
  index : BuildIndex
  contexts : List ContextDescription
deriving Repr

namespace Solution

def temporaryDirectory (solution : Solution) : String :=
  Path.join solution.root ((solution.index.temporaryDirectory.filter (· ≠ "")).getD "tmp")

/-! ## The index -/

def indexEnding : String := ".cbuild-idx.yml"

/-- Whether a path names an index: something stands in front of the ending. -/
def isIndexPath (path : String) : Bool :=
  (Path.fileName? path).any fun name =>
    Text.endsWith name indexEnding && decide (indexEnding.length < name.length)

def directoryOf (path : String) : String :=
  ((Path.dropLastComponent? path).filter (· ≠ "")).getD "."

def readIndex (tree : FileTree) (path : String) : Except DescriptionError BuildIndex :=
  if isIndexPath path then
    if tree.isFile path then
      match (tree.read path).toOption.bind Description.index? with
      | some index => .ok index
      | none => .error (.malformed path)
    else .error (.notFound path)
  else .error (.invalidArgument path)

/-! ## Contexts -/

def contextPath (root : String) (reference : ContextReference) : String :=
  Path.join root reference.path

def describe (root : String) (reference : ContextReference) (context : Context) :
    ContextDescription :=
  let path := contextPath root reference
  { reference
    name := if reference.project = "" then context.name else reference.name
    path
    root := Path.forwardSlashes
      (Path.relativeTo root ((Path.dropLastComponent? path).getD root))
    context }

/-- Read the descriptions one after the other. A file that is not there is passed over
with a warning; one that cannot be understood ends the reading. -/
def readContexts (tree : FileTree) (root : String) :
    List ContextReference → Logged DescriptionError (List ContextDescription)
  | [] => { result := .ok [] }
  | reference :: rest =>
      let path := contextPath root reference
      if tree.isFile path then
        match (tree.read path).toOption.bind Description.context? with
        | none => { result := .error (.malformed path) }
        | some context =>
            let description := describe root reference context
            ((readContexts tree root rest).map (description :: ·)).after
              [.debug ("context " ++ description.name ++ " rooted at '" ++ description.root ++
                "'")]
      else
        (readContexts tree root rest).after [.warning ("file " ++ path ++ " was not found")]

def load (tree : FileTree) (indexPath : String) : Logged DescriptionError Solution :=
  match readIndex tree indexPath with
  | .error error => { result := .error error }
  | .ok index =>
      let root := tree.absolute (directoryOf indexPath)
      (readContexts tree root index.contexts).map fun contexts =>
        { indexPath, root, index, contexts }

example : isIndexPath "dir/solution.cbuild-idx.yml" = true := by decide
example : isIndexPath ".cbuild-idx.yml" = false := by decide

end Solution

end SolutionLists
