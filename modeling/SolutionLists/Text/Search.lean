namespace SolutionLists.Text

/-! Occurrences of one text in another. -/

def startsWith (text start : String) : Bool :=
  start.toList.isPrefixOf text.toList

def endsWith (text ending : String) : Bool :=
  ending.toList.isSuffixOf text.toList

/-- The characters on both sides of the first place where `needle` starts. The
second list still begins with `needle`. -/
def splitBefore (needle : List Char) : List Char → Option (List Char × List Char)
  | [] => if needle.isEmpty then some ([], []) else none
  | head :: tail =>
      if needle.isPrefixOf (head :: tail) then some ([], head :: tail)
      else (splitBefore needle tail).map fun (before, rest) => (head :: before, rest)

def contains (text needle : String) : Bool :=
  (splitBefore needle.toList text.toList).isSome

example : contains "-masm=gnu" "masm" = true := by decide
example : contains "abc" "" = true := by decide

def stripStart? (text start : String) : Option String :=
  if startsWith text start then some (String.ofList (text.toList.drop start.length)) else none

def stripEnd? (text ending : String) : Option String :=
  if endsWith text ending then
    some (String.ofList (text.toList.take (text.length - ending.length)))
  else none

def pieces (separator : Char) (text : String) : List String :=
  (text.toList.splitOn separator).map String.ofList

def splitOnce (separator : Char) (text : String) : Option (String × String) :=
  let before := text.toList.takeWhile (· ≠ separator)
  match text.toList.dropWhile (· ≠ separator) with
  | [] => none
  | _ :: after => some (String.ofList before, String.ofList after)

example : splitOnce '@' "AC6@>=6.18" = some ("AC6", ">=6.18") := by decide

end SolutionLists.Text
