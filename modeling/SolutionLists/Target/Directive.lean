import SolutionLists.Description.File
import SolutionLists.Inheritance

namespace SolutionLists

/-! What is said about build targets, before it is put into words. -/

inductive LibraryKind where
  /-- A unit that compiles the listed sources. -/
  | object (sources : List String)
  /-- A unit that only hands on settings. -/
  | interface
deriving DecidableEq, Repr

structure FileProperties where
  file : String
  language : Language
  compileOptions : List String := []
  compileDefinitions : List Define := []
  abstractions : Option Abstractions := none
deriving DecidableEq, Repr

def FileProperties.isEmpty (properties : FileProperties) : Bool :=
  properties.compileOptions = [] && properties.compileDefinitions = [] &&
    properties.abstractions = none

/-- One statement, or one block of statements that belong together. -/
inductive Directive where
  | comment (text : String)
  | blank
  | addLibrary (name : String) (kind : LibraryKind)
  | includeDirectories (target : String) (scope : Scope)
      (parent : Option (ParentPart LanguageMap)) (includes : ScopeMap)
  | compileDefinitions (target : String) (scope : Scope)
      (parent : Option (ParentPart (List Define))) (defines : List Define)
  /-- A library that carries the abstractions of its owner. -/
  | abstractionsBundle (owner : String) (abstractions : Abstractions) (languages : List Language)
  | compileOptions (target : String) (scope : Scope) (parent : Option String)
      (misc : Misc) (preIncludes : List String)
  | linkLibraries (target : String) (scope : Scope) (libraries : List String)
  | sourceFileProperties (properties : FileProperties)
deriving DecidableEq, Repr

namespace Directive

def target? : Directive → Option String
  | comment _ | blank | sourceFileProperties _ => none
  | addLibrary name _ => some name
  | abstractionsBundle owner _ _ => some owner
  | includeDirectories target .. | compileDefinitions target .. | compileOptions target ..
  | linkLibraries target .. => some target

/-- The target that an `addLibrary` brings into being. -/
def definedTarget? : Directive → Option String
  | addLibrary name _ => some name
  | _ => none

end Directive

namespace Target

def context : String := Path.variableReference "CONTEXT"

def bundleOf (owner : String) : String :=
  owner ++ "_ABSTRACTIONS"

end Target

end SolutionLists
