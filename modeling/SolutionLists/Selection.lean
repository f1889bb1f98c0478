import SolutionLists.Solution
import SolutionLists.Text.Wildcard

namespace SolutionLists

/-! Contexts are selected by patterns for their names. -/

inductive SelectionError where
  | invalidPattern (pattern : String) (error : Text.WildcardError)
  | unknownContext (pattern : String) (available : List String)
deriving DecidableEq, Repr

def SelectionError.message : SelectionError → String
  | invalidPattern pattern error =>
      "invalid context pattern `" ++ pattern ++ "`: " ++ error.message
  | unknownContext pattern available =>
      "context `" ++ pattern ++ "` was not found\navailable contexts: " ++
        (if available = [] then "(none)" else ", ".intercalate available)

namespace Solution

def readPattern (names : List String) (pattern : String) :
    Except SelectionError Text.Wildcard :=
  match Text.Wildcard.parse pattern with
  | .error error => .error (.invalidPattern pattern error)
  | .ok wildcard =>
      if names.any wildcard.accepts then .ok wildcard
      else .error (.unknownContext pattern names)

def select (contexts : List ContextDescription) (patterns : List String) :
    Except SelectionError (List ContextDescription) :=
  if patterns = [] then .ok contexts
  else
    (patterns.mapM (readPattern (contexts.map (·.name)))).map fun wildcards =>
      contexts.filter fun description => wildcards.any (·.accepts description.name)

end Solution

end SolutionLists
