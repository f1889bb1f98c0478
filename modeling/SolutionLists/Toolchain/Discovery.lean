import SolutionLists.Configuration
import SolutionLists.Files.Tree
import SolutionLists.Log
import SolutionLists.Text.Word
import SolutionLists.Toolchain.Catalog

namespace SolutionLists.Toolchain

/-! Toolchains are found by name: configurations by the names of files, installations
by the names of environment variables, and more of them in the configuration. -/

def versionOf? (major minor patch : List Char) : Option Version :=
  match Version.part? major, Version.part? minor, Version.part? patch with
  | some major, some minor, some patch => some { major, minor, patch }
  | _, _, _ => none

def isWord (name : List Char) : Bool :=
  name ≠ [] && name.all Text.isWordChar

/-- The toolchain of a file name `<name>.<major>.<minor>.<patch>.cmake`. -/
def ofFileName? (fileName : String) : Option (String × Version) :=
  match fileName.toList.splitOn '.' with
  | [name, major, minor, patch, ['c', 'm', 'a', 'k', 'e']] =>
      if isWord name then
        (versionOf? major minor patch).map fun version => (String.ofList name, version)
      else none
  | _ => none

def registrationMark : List Char := "TOOLCHAIN".toList

/-- The toolchain of a variable `<name>_TOOLCHAIN_<major>_<minor>_<patch>`. -/
def ofVariableName? (variableName : String) : Option (String × Version) :=
  match (variableName.toList.splitOn '_').reverse with
  | patch :: minor :: major :: mark :: rest =>
      let name := ['_'].intercalate rest.reverse
      if mark = registrationMark ∧ rest ≠ [] ∧ isWord name then
        (versionOf? major minor patch).map fun version => (String.ofList name, version)
      else none
  | _ => none

def withoutSeparators (path : String) : String :=
  String.ofList (path.toList.reverse.dropWhile (· = '/')).reverse

def configsOf (root : String) (names : List String) : List Toolchain :=
  (names.mergeSort fun first second => decide (first ≤ second)).filterMap fun fileName =>
    (ofFileName? fileName).map fun (name, version) =>
      { name, version, path := withoutSeparators root ++ "/" ++ fileName }

def discoverConfigs (tree : FileTree) (compilerRoot : String) :
    Except ToolchainError (List Toolchain) :=
  let root := Path.forwardSlashes compilerRoot
  match tree.names compilerRoot with
  | .error _ => .error (.compilerRoot root)
  | .ok names =>
      match configsOf root names with
      | [] => .error (.noConfigFiles root)
      | configs => .ok configs

def ofEnvironment (environment : List (String × String)) : List Toolchain :=
  environment.filterMap fun (variableName, value) =>
    (ofVariableName? variableName).map fun (name, version) =>
      { name, version, path := Path.forwardSlashes value }

def ofEntry? (entry : ToolchainEntry) : Option Toolchain :=
  (Version.parse? entry.version).map fun version =>
    { name := entry.name, version, path := Path.forwardSlashes entry.path }

/-- Installations in the order of the environment, then of the configuration. -/
def discoverRegistered (environment : List (String × String)) (configuration : Configuration) :
    List Toolchain :=
  ofEnvironment environment ++ configuration.toolchains.filterMap ofEntry?

def registrationLog (configuration : Configuration) : Log :=
  (configuration.toolchains.filter fun entry => (Version.parse? entry.version).isNone).map
    fun entry =>
      .warning ("ignoring toolchain entry " ++ entry.name ++ " with invalid version `" ++
        entry.version ++ "`")

example : ofVariableName? "A_TOOLCHAIN_TOOLCHAIN_1_2_3" =
    some ("A_TOOLCHAIN", { major := 1, minor := 2, patch := 3 }) := by decide

end SolutionLists.Toolchain

namespace SolutionLists.ToolchainCatalog

def discover (tree : FileTree) (compilerRoot : String) (environment : List (String × String))
    (configuration : Configuration) : Except ToolchainError ToolchainCatalog :=
  (Toolchain.discoverConfigs tree compilerRoot).map fun configs =>
    { compilerRoot := Path.forwardSlashes compilerRoot
      configs
      registered := Toolchain.discoverRegistered environment configuration }

end SolutionLists.ToolchainCatalog
