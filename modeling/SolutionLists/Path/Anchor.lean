import SolutionLists.Path.Lexical

namespace SolutionLists.Path

/-! Description paths count from the directory of their context. In generated
files they hang on the variable of the solution root, so that the files can move
with the solution. -/

def variableReference (name : String) : String :=
  "$\x7b" ++ name ++ "\x7d"

def solutionRoot : String := variableReference "SOLUTION_ROOT"

def isReference (path : String) : Bool :=
  Text.startsWith path "$\x7b"

/-- Whether a path means the same whatever directory it is read from. -/
def isAnchored (path : String) : Bool :=
  isReference path || isAbsolute path

/-- Hang a path on the solution root. `base` is the directory of the context
below that root; anchored paths stay as they are. -/
def anchor (base input : String) : String :=
  let path := forwardSlashes input
  if isAnchored path then path
  else
    let joined := clean (if base = "" then path else base ++ "/" ++ path)
    if joined = "." then solutionRoot else solutionRoot ++ "/" ++ joined

def anchorAll (base : String) (inputs : List String) : List String :=
  inputs.map (anchor base)

/-! ## Paths inside tool options -/

def startsRelative (chars : List Char) : Bool :=
  ['.', '/'].isPrefixOf chars || ['.', '.', '/'].isPrefixOf chars

def splitAtRelative : List Char → Option (List Char × List Char)
  | [] => none
  | head :: tail =>
      if startsRelative (head :: tail) then some ([], head :: tail)
      else (splitAtRelative tail).map fun (before, rest) => (head :: before, rest)

/-- Hang the first relative path of a tool option on the solution root. The path
reaches to the end of its line, and the option ends with it. -/
def anchorOption (base option : String) : String :=
  match splitAtRelative option.toList with
  | none => option
  | some (before, rest) =>
      String.ofList before ++ anchor base (String.ofList (rest.takeWhile (· ≠ '\n')))

example : anchor "project" "relative/path" = solutionRoot ++ "/project/relative/path" := by decide
example : anchor "project" "C:\\absolute\\win" = "C:/absolute/win" := by decide
example : anchor "" "." = solutionRoot := by decide
example : anchorOption "./context" "-map=./out/file.map" =
    "-map=" ++ solutionRoot ++ "/context/out/file.map" := by decide

end SolutionLists.Path
