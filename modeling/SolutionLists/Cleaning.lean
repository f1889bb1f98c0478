import SolutionLists.Solution

namespace SolutionLists.Solution

/-! The directories that hold nothing but results: those of the lists, and those that
the contexts are built in. -/

def samePath (first second : String) : Bool :=
  Path.components first = Path.components second

/-- The directories that a context is built in, from where its description lies. -/
def buildDirectories (solution : Solution) (description : ContextDescription) : List String :=
  let base := (Path.dropLastComponent? description.path).getD solution.root
  let directories := description.context.directories
  ([directories.intermediate, directories.output].filter (· ≠ "")).map (Path.join base)

def cleanTargets (solution : Solution) (contexts : List ContextDescription) : List String :=
  (contexts.flatMap solution.buildDirectories).foldl
    (fun targets path => if targets.any (samePath path) then targets else targets ++ [path])
    [solution.temporaryDirectory]

end SolutionLists.Solution
