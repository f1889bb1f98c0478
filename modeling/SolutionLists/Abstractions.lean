import SolutionLists.Language

namespace SolutionLists

/-! Settings that every toolchain knows in its own words: optimisation, debug
information, warnings and the standards of C and C++. -/

structure Abstractions where
  optimize : String := ""
  debug : String := ""
  warnings : String := ""
  languageC : String := ""
  languageCxx : String := ""
deriving DecidableEq, Repr, Inhabited

namespace Abstractions

def hasStandard (settings : Abstractions) : Language → Bool
  | .c => settings.languageC ≠ ""
  | .cxx => settings.languageCxx ≠ ""
  | .cAndCxx => settings.languageC ≠ "" || settings.languageCxx ≠ ""
  | .asm | .all => false

def isEmptyFor (settings : Abstractions) (language : Language) : Bool :=
  settings.optimize = "" && settings.debug = "" && settings.warnings = "" &&
    !settings.hasStandard language

def isEmptyForAll (settings : Abstractions) (languages : List Language) : Bool :=
  languages.all settings.isEmptyFor

def nearer (outer inner : String) : String :=
  if inner = "" then outer else inner

/-- Field by field, what is set inside wins over what is set around it. -/
def inherit (outer inner : Abstractions) : Abstractions where
  optimize := nearer outer.optimize inner.optimize
  debug := nearer outer.debug inner.debug
  warnings := nearer outer.warnings inner.warnings
  languageC := nearer outer.languageC inner.languageC
  languageCxx := nearer outer.languageCxx inner.languageCxx

def standard (settings : Abstractions) : Language → String
  | .c => settings.languageC
  | .cxx => settings.languageCxx
  | _ => ""

def optionArguments (settings : Abstractions) (language : Language) : List String :=
  [settings.optimize, settings.debug, settings.warnings, settings.standard language]

end Abstractions

end SolutionLists
