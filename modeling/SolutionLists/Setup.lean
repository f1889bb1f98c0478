import SolutionLists.Roots
import SolutionLists.Settings

namespace SolutionLists

/-! What generation takes from outside of the solution. -/

structure Setup where
  environment : Environment := []
  configuration : Configuration := {}
  roots : Roots
deriving DecidableEq, Repr

namespace Setup

def make (tree : FileTree) (user : UserDirectories) (environment : Environment)
    (configuration : Configuration) (programDirectory : Option String) : Setup where
  environment
  configuration
  roots := Roots.find tree user environment configuration programDirectory

def ofSolution (tree : FileTree) (environment : Environment) (directory : String)
    (programDirectory : Option String) : Setup × Log :=
  let user := UserDirectories.ofEnvironment environment
  let (configuration, log) :=
    Configuration.load tree (Configuration.userFile? user) (Configuration.solutionFile directory)
  (make tree user environment configuration programDirectory, log)

end Setup

end SolutionLists
