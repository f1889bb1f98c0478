import SolutionLists.Define
import SolutionLists.Ordered

namespace SolutionLists

/-! Definitions for assembly sources that no preprocessor reads. Some assemblers
take them as symbols, each dialect with an option of its own. -/

inductive AssemblerDialect where
  | gnu
  | arm
deriving DecidableEq, Repr

namespace AssemblerDialect

def spelling : AssemblerDialect → String
  | gnu => "gnu"
  | arm => "arm"

/-- The dialect for a file; none where ordinary definitions reach it. With AC6 the
last `-masm` flag decides. -/
def ofFile? (toolchain file : String) (flags : List String) : Option AssemblerDialect :=
  if Text.endsWith file ".S" then none
  else if toolchain = "GCC" then some gnu
  else if toolchain = "AC6" then
    match Ordered.lastContaining flags "-masm" with
    | some flag => if flag = "-masm=gnu" ∨ flag = "-masm=auto" then some gnu else some arm
    | none => some arm
  else none

/-- The option that defines one symbol; without a value it is `1`. -/
def symbolFlag (dialect : AssemblerDialect) (define : Define) : String :=
  let value := if define.valueOrEmpty = "" then "1" else define.valueOrEmpty
  match dialect with
  | gnu => "-Wa,--defsym," ++ define.name ++ "=" ++ value
  | arm => "-Wa,armasm,--pd," ++ define.name ++ " SETA " ++ value

def symbolFlags (dialect : AssemblerDialect) (defines : List Define) : List String :=
  defines.map dialect.symbolFlag

example : ofFile? "AC6" "a.s" ["-masm=auto", "-masm=armasm"] = some arm := by decide

end AssemblerDialect

end SolutionLists
