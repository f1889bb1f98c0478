namespace SolutionLists.Target

/-! Names of build targets are made from group names, component identifiers and
file paths. -/

def isDelimiter (char : Char) : Bool :=
  char ∈ [':', '&', '@', '.', '/', '(', ')', ' ']

/-- Each delimiter becomes an underscore; `::` and `@>=` count as one. -/
def nameChars : List Char → List Char
  | [] => []
  | ':' :: ':' :: rest => '_' :: nameChars rest
  | '@' :: '>' :: '=' :: rest => '_' :: nameChars rest
  | head :: rest => (if isDelimiter head then '_' else head) :: nameChars rest

def nameOf (identifier : String) : String :=
  String.ofList (nameChars identifier.toList)

example : nameOf "Cvendor&Cbundle::Cclass:Cgroup@Cversion" =
    "Cvendor_Cbundle_Cclass_Cgroup_Cversion" := by decide
example : nameOf "AC6@>=6.16.0" = "AC6_6_16_0" := by decide

end SolutionLists.Target
