namespace SolutionLists

/-! The build index of a solution: its contexts, what they wait for, and the
commands to run around them. -/

structure ContextReference where
  /-- Path of the description from the directory of the index. -/
  path : String := ""
  project : String := ""
  /-- Build type and target type, as in `.debug+target`. -/
  configuration : String := ""
  dependsOn : List String := []
deriving DecidableEq, Repr, Inhabited

def ContextReference.name (reference : ContextReference) : String :=
  reference.project ++ reference.configuration

structure Execute where
  name : String := ""
  run : String := ""
  always : Bool := false
  input : List String := []
  output : List String := []
  dependsOn : List String := []
deriving DecidableEq, Repr, Inhabited

/-- An `always` command that waits for nothing runs before everything else. -/
def Execute.isIndependent (execute : Execute) : Bool :=
  execute.always && execute.dependsOn.isEmpty

structure BuildIndex where
  generatedBy : String := ""
  solution : String := ""
  /-- Directory of the generated lists, from the directory of the index. -/
  temporaryDirectory : Option String := none
  projects : List String := []
  contexts : List ContextReference := []
  executes : List Execute := []
deriving DecidableEq, Repr, Inhabited

end SolutionLists
