namespace SolutionLists

/-! Messages for the user: what went wrong, the circumstances, and what may help. -/

inductive Severity where
  | error
  | warning
deriving DecidableEq, Repr

def Severity.text : Severity → String
  | error => "error"
  | warning => "warning"

structure Diagnostic where
  message : String
  severity : Severity := .error
  context : List String := []
  suggestions : List String := []
  location : Option String := none
deriving DecidableEq, Repr

namespace Diagnostic

def coloured (colour text : String) : String :=
  "\x1b[1;" ++ colour ++ "m" ++ text ++ "\x1b[0m"

def severityText (severity : Severity) (colour : Bool) : String :=
  if colour then
    match severity with
    | .error => coloured "31" severity.text
    | .warning => coloured "33" severity.text
  else severity.text

/-- The suggestions: one stands behind the label, more of them are numbered. -/
def helpText (diagnostic : Diagnostic) (colour : Bool) : String :=
  let label := if colour then coloured "32" "help" else "help"
  match diagnostic.suggestions with
  | [] => ""
  | [suggestion] => label ++ ": " ++ suggestion ++ "\n"
  | suggestions =>
      label ++ ": consider:\n" ++
        String.join (suggestions.zipIdx.map fun (suggestion, index) =>
          "  " ++ toString (index + 1) ++ ". " ++ suggestion ++ "\n")

def text (diagnostic : Diagnostic) (colour : Bool) : String :=
  severityText diagnostic.severity colour ++ ": " ++ diagnostic.message ++ "\n" ++
    String.join (diagnostic.location.toList.map fun path => "  --> " ++ path ++ "\n") ++
    String.join (diagnostic.context.map fun line => "  = " ++ line ++ "\n") ++
    diagnostic.helpText colour

end Diagnostic

/-- What a typed error says about itself: its message, the code it is listed under, a
hint that goes with the code, and the full diagnostic. -/
structure ErrorReport where
  message : String
  code : String
  hint : Option String
  diagnostic : Diagnostic
deriving DecidableEq, Repr

namespace Suggestion

def toolchainConfig : String :=
  "check that CMSIS_COMPILER_ROOT points to the directory holding <Name>.<version>.cmake files"

def registerToolchain : String :=
  "register an installation with <Name>_TOOLCHAIN_<major>_<minor>_<patch>=<path>"

def relaxConstraint : String :=
  "relax the version constraint in the `compiler:` node of the solution"

def breakCycle : String :=
  "remove one of the `depends-on` entries that close the cycle"

def regenerateIndex : String :=
  "regenerate the build index with `csolution convert`"

end Suggestion

end SolutionLists
