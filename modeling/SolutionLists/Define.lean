import SolutionLists.Text.Search

namespace SolutionLists

/-! Preprocessor definitions. -/

structure Define where
  name : String
  value : Option String := none
deriving DecidableEq, Repr, Inhabited

namespace Define

def valueOrEmpty (define : Define) : String :=
  define.value.getD ""

/-- The form on a command line: `name=value`, or the name where the value is
empty or absent. -/
def text (define : Define) : String :=
  if define.valueOrEmpty = "" then define.name
  else define.name ++ "=" ++ define.valueOrEmpty

def remove (defines : List Define) (names : List String) : List Define :=
  defines.filter (·.name ∉ names)

def joinTexts (delimiter : String) (defines : List Define) : String :=
  delimiter.intercalate (defines.map text)

example : (Define.mk "NAME" (some "")).text = "NAME" := by decide

end Define

end SolutionLists
