namespace SolutionLists.Yaml

/-! The characters of a document with the places they stand at. -/

structure Mark where
  char : Char
  line : Nat
  column : Nat
deriving DecidableEq, Repr

abbrev Marks := List Mark

/-! ## Characters -/

def isBreak (char : Char) : Bool :=
  char = '\n' || char = '\u2028' || char = '\u2029'

def isBlank (char : Char) : Bool :=
  char = ' ' || char = '\t'

def isSpacing (char : Char) : Bool :=
  isBlank char || isBreak char

def isNameChar (char : Char) : Bool :=
  char.isAlphanum || char = '_' || char = '-'

def isPrintable (char : Char) : Bool :=
  let code := char.toNat
  code = 0x9 || code = 0xA || code = 0xD || (0x20 ≤ code && code ≤ 0x7E) || code = 0x85 ||
    (0xA0 ≤ code && code ≤ 0xFFFD) || 0x10000 ≤ code

/-! ## Places -/

/-- Every character with its place. A carriage return, with or without a line feed
behind it, and a next-line character are one line feed. -/
def marksFrom (line column : Nat) : List Char → Marks
  | [] => []
  | '\r' :: '\n' :: rest => ⟨'\n', line, column⟩ :: marksFrom (line + 1) 0 rest
  | char :: rest =>
      if char = '\r' || char = '\u0085' then ⟨'\n', line, column⟩ :: marksFrom (line + 1) 0 rest
      else if isBreak char then ⟨char, line, column⟩ :: marksFrom (line + 1) 0 rest
      else ⟨char, line, column⟩ :: marksFrom line (column + 1) rest

def marks? (text : String) : Option Marks :=
  if text.toList.all isPrintable then some (marksFrom 0 0 text.toList) else none

namespace Marks

def first? (marks : Marks) : Option Char :=
  marks.head?.map (·.char)

def startsSpacing (marks : Marks) : Bool :=
  marks.first?.all isSpacing

def startsBreak (marks : Marks) : Bool :=
  marks.first?.all isBreak

def startsWith (marks : Marks) (chars : List Char) : Bool :=
  (marks.take chars.length).map (·.char) = chars

/-- A line that separates documents: three dashes or three dots, and nothing joined
to them. -/
def startsDocumentMark (marks : Marks) : Bool :=
  marks.head?.any (·.column = 0) &&
    (marks.startsWith ['-', '-', '-'] || marks.startsWith ['.', '.', '.']) &&
    Marks.startsSpacing (marks.drop 3)

def span (marks : Marks) (accepts : Char → Bool) : List Char × Marks :=
  ((marks.takeWhile (accepts ·.char)).map (·.char), marks.dropWhile (accepts ·.char))

end Marks

example : (marksFrom 0 0 "a\r\nb".toList).map (fun mark => (mark.char, mark.line, mark.column)) =
    [('a', 0, 0), ('\n', 0, 1), ('b', 1, 0)] := by decide

end SolutionLists.Yaml
