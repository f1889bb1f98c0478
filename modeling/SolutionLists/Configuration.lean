namespace SolutionLists

/-! Settings of the user and of a solution. -/

structure ToolchainEntry where
  name : String
  version : String
  path : String
deriving DecidableEq, Repr, Inhabited

structure Configuration where
  packRoot : Option String := none
  compilerRoot : Option String := none
  generator : Option String := none
  toolchains : List ToolchainEntry := []
deriving DecidableEq, Repr, Inhabited

namespace Configuration

def defaultGenerator : String := "Ninja"

def generatorName (configuration : Configuration) : String :=
  configuration.generator.getD defaultGenerator

/-- Put an entry at the end. One with the same name and version gives way. -/
def addToolchain (entries : List ToolchainEntry) (entry : ToolchainEntry) :
    List ToolchainEntry :=
  (entries.filter fun other => !(other.name = entry.name && other.version = entry.version)) ++
    [entry]

/-- Settings with others laid over them; what the others set wins. -/
def merge (below above : Configuration) : Configuration where
  packRoot := above.packRoot.or below.packRoot
  compilerRoot := above.compilerRoot.or below.compilerRoot
  generator := above.generator.or below.generator
  toolchains := above.toolchains.foldl addToolchain below.toolchains

end Configuration

end SolutionLists
