import SolutionLists.Diagnostic
import SolutionLists.Path.Lexical
import SolutionLists.Version.Constraint

namespace SolutionLists

/-! Toolchains: the configuration files there are, the installations that are
registered, and the choice among them that a context asks for. -/

/-- A toolchain by name and version, and where it is: the file of a configuration or
the directory of an installation. -/
structure Toolchain where
  name : String
  version : Version
  path : String
deriving DecidableEq, Repr, Inhabited

inductive ToolchainError where
  | compilerRoot (path : String)
  | noConfigFiles (path : String)
  | noConfig (name : String)
  | noCompatible (name : String) (constraint : Option String) (registered : List Version)
  | invalidConstraint (name constraint : String) (reason : Version.ConstraintError)
deriving DecidableEq, Repr

namespace ToolchainError

def message : ToolchainError → String
  | compilerRoot path => "reading directory failed: " ++ path
  | noConfigFiles path => "no toolchain configuration file was found in " ++ path
  | noConfig name => "no toolchain configuration file was found for " ++ name
  | noCompatible name _ _ => "no compatible registered toolchain was found for " ++ name
  | invalidConstraint name constraint reason =>
      "invalid version constraint `" ++ constraint ++ "` for " ++ name ++ ": " ++ reason.message

def code : ToolchainError → String
  | compilerRoot _ => "cbuild2cmake::toolchain::compiler_root"
  | noConfigFiles _ => "cbuild2cmake::toolchain::no_config_files"
  | noConfig _ => "cbuild2cmake::toolchain::no_config"
  | noCompatible .. => "cbuild2cmake::toolchain::not_registered"
  | invalidConstraint .. => "cbuild2cmake::toolchain::invalid_constraint"

def hint : ToolchainError → Option String
  | noConfigFiles _ =>
      some "check that CMSIS_COMPILER_ROOT points to the toolchain configuration files"
  | noCompatible name _ _ =>
      some ("register an installation with " ++ name ++
        "_TOOLCHAIN_<major>_<minor>_<patch>=<path>")
  | _ => none

def diagnostic (error : ToolchainError) : Diagnostic :=
  match error with
  | compilerRoot _ | noConfigFiles _ =>
      { message := error.message, suggestions := [Suggestion.toolchainConfig] }
  | noConfig name =>
      { message := error.message
        context := ["expected a file named " ++ name ++ ".<major>.<minor>.<patch>.cmake"]
        suggestions := [Suggestion.toolchainConfig] }
  | noCompatible name constraint registered =>
      { message := error.message
        context :=
          constraint.toList.map (fun constraint =>
            "requested: " ++ name ++ "@" ++ constraint) ++
          [if registered = [] then "no " ++ name ++ " installation is registered"
            else "registered versions: " ++ ", ".intercalate (registered.map Version.text)]
        suggestions :=
          Suggestion.registerToolchain ::
            (if constraint.isSome then [Suggestion.relaxConstraint] else []) }
  | invalidConstraint name constraint reason =>
      { message := "invalid version constraint `" ++ constraint ++ "` for " ++ name
        context := [reason.message]
        suggestions := [Suggestion.relaxConstraint] }

def report (error : ToolchainError) : ErrorReport where
  message := error.message
  code := error.code
  hint := error.hint
  diagnostic := error.diagnostic

end ToolchainError

/-! ## Requirements -/

structure Requirement where
  name : String
  constraint : Option Version.Constraint := none
deriving DecidableEq, Repr

namespace Requirement

def parse (text : String) : Except ToolchainError Requirement :=
  match Text.splitOnce '@' text with
  | none => .ok { name := Text.trim text }
  | some (name, constraint) =>
      let name := Text.trim name
      let source := Text.trim constraint
      match Version.Constraint.parse source with
      | .ok constraint => .ok { name, constraint := some constraint }
      | .error reason => .error (.invalidConstraint name source reason)

def accepts (requirement : Requirement) (version : Version) : Bool :=
  requirement.constraint.all (·.accepts version)

end Requirement

/-! ## Choice -/

namespace Toolchain

def newestFirst (toolchains : List Toolchain) : List Toolchain :=
  toolchains.mergeSort fun first second => decide (second.version ≤ first.version)

def named (name : String) (toolchains : List Toolchain) : List Toolchain :=
  toolchains.filter (·.name = name)

def configFor (configs : List Toolchain) (installation : Toolchain) : Option Toolchain :=
  (newestFirst configs).find? fun config => decide (config.version ≤ installation.version)

/-- The newest installation that the requirement accepts and that reaches a
configuration, with the newest configuration it reaches. -/
def resolve (requirement : Requirement) (configs registered : List Toolchain) :
    Except ToolchainError (Toolchain × Toolchain) :=
  let configs := named requirement.name configs
  if configs = [] then .error (.noConfig requirement.name)
  else
    let installations := newestFirst (named requirement.name registered)
    let found := installations.findSome? fun installation =>
      if requirement.accepts installation.version then
        (configFor configs installation).map fun config => (installation, config)
      else none
    match found with
    | some choice => .ok choice
    | none =>
        .error (.noCompatible requirement.name (requirement.constraint.map (·.source))
          (installations.map (·.version)))

end Toolchain

structure SelectedToolchain where
  name : String
  version : Version
  /-- Directory of the installation. -/
  root : String
  /-- Configuration file, from the directory of all of them where it lies there. -/
  config : String
deriving DecidableEq, Repr

structure ToolchainCatalog where
  /-- Directory of the configuration files. -/
  compilerRoot : String := ""
  configs : List Toolchain := []
  registered : List Toolchain := []
deriving DecidableEq, Repr, Inhabited

namespace ToolchainCatalog

/-- A path without the text of the compiler root and the separators behind it. -/
def relativeConfig (compilerRoot path : String) : String :=
  match Text.stripStart? path compilerRoot with
  | some rest => String.ofList (rest.toList.dropWhile (· = '/'))
  | none => path

def select (catalog : ToolchainCatalog) (compiler : String) :
    Except ToolchainError SelectedToolchain :=
  match Requirement.parse compiler with
  | .error error => .error error
  | .ok requirement =>
      match Toolchain.resolve requirement catalog.configs catalog.registered with
      | .error error => .error error
      | .ok (installation, config) =>
          .ok
            { name := installation.name
              version := installation.version
              root := installation.path
              config := relativeConfig catalog.compilerRoot config.path }

end ToolchainCatalog

end SolutionLists
