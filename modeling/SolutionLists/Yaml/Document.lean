import SolutionLists.Yaml.Node

namespace SolutionLists.Yaml

/-! A text with exactly one document. -/

structure Document where
  root : Node
  /-- Nodes with anchors, the last one of a number in front. -/
  anchors : List (Nat × Node)
  /-- How many nodes and ends of collections there are. -/
  size : Nat
deriving Repr

namespace Document

def ofRoot (root : Node) : Document where
  root
  anchors := root.anchored.reverse
  size := root.size

end Document

/-! ## Directives -/

structure Directives where
  version : Bool := false
  handles : Handles := []
deriving DecidableEq, Repr

def standardHandles : Handles :=
  [("!", "!"), ("!!", "tag:yaml.org,2002:")]

/-- Directives up to the start of the document, without repeats and for a version
that is known. -/
def readDirectives (directives : Directives) : List Token → Option (Handles × List Token)
  | .versionDirective major minor :: rest =>
      if directives.version || major ≠ 1 || (minor ≠ 1 && minor ≠ 2) then none
      else readDirectives { directives with version := true } rest
  | .tagDirective handle start :: rest =>
      if (directives.handles.lookup handle).isSome then none
      else
        readDirectives { directives with handles := directives.handles ++ [(handle, start)] } rest
  | .documentStart :: rest => some (directives.handles ++ standardHandles, rest)
  | _ => none

/-! ## The document -/

def readContent (handles : Handles) (tokens : List Token) : Option (Node × List Token) :=
  ((readNode handles true false (3 * tokens.length + 3)).run { tokens }).map
    fun (root, progress) => (root, progress.tokens)

def readExplicit (tokens : List Token) : Option (Node × List Token) := do
  let (handles, rest) ← readDirectives {} tokens
  match rest with
  | [] => some (.empty, [])
  | .versionDirective .. :: _ | .tagDirective .. :: _ | .documentStart :: _ | .documentEnd :: _ =>
      some (.empty, rest)
  | _ => readContent handles rest

/-- The one document of a text. A text without any, and one with more, has none. -/
def document? (text : String) : Option Document := do
  let tokens ← tokens? text
  let (root, rest) ←
    match tokens with
    | [] => none
    | .versionDirective .. :: _ | .tagDirective .. :: _ | .documentStart :: _ =>
        readExplicit tokens
    | _ => readContent standardHandles tokens
  if rest.all (· = .documentEnd) then some (.ofRoot root) else none

end SolutionLists.Yaml
