import SolutionLists.Configuration
import SolutionLists.Environment
import SolutionLists.Files.Tree

namespace SolutionLists

/-! The directories outside of a solution: the packs, and the configuration files of
toolchains. -/

structure Roots where
  packs : String
  compiler : String
deriving DecidableEq, Repr

namespace Roots

def packVariable : String := "CMSIS_PACK_ROOT"

def compilerVariable : String := "CMSIS_COMPILER_ROOT"

def defaultPacks (user : UserDirectories) : String :=
  (user.cache.map fun cache => Path.join (Path.join cache "arm") "packs").getD "packs"

def defaultCompiler (programDirectory : Option String) : String :=
  (programDirectory.map fun directory => Path.join (Path.join directory "..") "etc").getD "etc"

def settle (tree : FileTree) (path : String) : String :=
  Path.forwardSlashes (tree.canonical path)

/-- Each root is taken from the environment, else from the configuration, else it is
the default one. -/
def find (tree : FileTree) (user : UserDirectories) (environment : Environment)
    (configuration : Configuration) (programDirectory : Option String) : Roots where
  packs := settle tree <|
    ((environment.setting? packVariable).or configuration.packRoot).getD (defaultPacks user)
  compiler := settle tree <|
    ((environment.setting? compilerVariable).or configuration.compilerRoot).getD
      (defaultCompiler programDirectory)

end Roots

end SolutionLists
