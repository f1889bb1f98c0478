import SolutionLists.Path.Component

namespace SolutionLists

/-! The variables that a program is started with, and the directories of its user that
follow from them. -/

/-- Of several values of one variable the first counts. -/
abbrev Environment := List (String × String)

def Environment.setting? (environment : Environment) (name : String) : Option String :=
  (environment.lookup name).filter (· ≠ "")

structure UserDirectories where
  cache : Option String := none
  settings : Option String := none
deriving DecidableEq, Repr

namespace UserDirectories

/-- A directory below the home directory, unless a variable names one from the root. -/
def find? (environment : Environment) (variableName below : String) : Option String :=
  (environment.setting? "HOME").map fun home =>
    ((environment.lookup variableName).filter (Path.isRooted ·)).getD (Path.join home below)

def ofEnvironment (environment : Environment) : UserDirectories where
  cache := find? environment "XDG_CACHE_HOME" ".cache"
  settings := find? environment "XDG_CONFIG_HOME" ".config"

end UserDirectories

end SolutionLists
