import SolutionLists.Toml.Scalar
import SolutionLists.Toml.Table

namespace SolutionLists.Toml

/-! The text of a configuration file. -/

open Document (Value)

def greatestDepth : Nat := 79

/-! ## White space -/

def afterComment (chars : List Char) : List Char :=
  match chars with
  | '#' :: rest => rest.dropWhile isTextChar
  | _ => chars

def endOfLine? (chars : List Char) : Option (List Char) :=
  match afterComment (skipBlanks chars) with
  | [] => some []
  | rest => newline? rest

/-- Pass over blanks, comments and line breaks. `rounds` bounds how many lines there
are. -/
def skipLines : (rounds : Nat) → List Char → List Char
  | 0, chars => chars
  | rounds + 1, chars =>
      let rest := skipBlanks chars
      match newline? (afterComment rest) with
      | some behind => skipLines rounds behind
      | none => rest

def skipAll (chars : List Char) : List Char :=
  skipLines chars.length chars

/-! ## Keys -/

def keyFrom : (rounds : Nat) → List Char → Option (List String × List Char)
  | 0, _ => none
  | rounds + 1, chars => do
      let (part, rest) ← keyPart? (skipBlanks chars)
      match skipBlanks rest with
      | '.' :: behind =>
          let (parts, rest) ← keyFrom rounds behind
          pure (part :: parts, rest)
      | rest => pure ([part], rest)

/-- A key has one part for each table that it passes through, and these may not be nested
deeper than arrays. -/
def key? (chars : List Char) : Option (List String × List Char) :=
  (keyFrom chars.length chars).filter fun (parts, _) => parts.length ≤ greatestDepth

/-! ## Values -/

mutual

def readValue (depth : Nat) : (rounds : Nat) → List Char → Option (Value × List Char)
  | 0, _ => none
  | rounds + 1, chars =>
      match chars, depth with
      | '[' :: _, 0 | '\x7b' :: _, 0 => none
      | '[' :: rest, depth + 1 => readArray depth [] rounds (skipAll rest)
      | '\x7b' :: rest, depth + 1 =>
          match skipBlanks rest with
          | '\x7d' :: behind => some (.object [], behind)
          | rest => readInline depth [] rounds rest
      | _, _ => scalar? chars

def readArray (depth : Nat) (reversed : List Value) :
    (rounds : Nat) → List Char → Option (Value × List Char)
  | 0, _ => none
  | _ + 1, ']' :: rest => some (.list reversed.reverse, rest)
  | rounds + 1, chars => do
      let (value, rest) ← readValue depth rounds chars
      match skipAll rest with
      | ',' :: rest => readArray depth (value :: reversed) rounds (skipAll rest)
      | ']' :: rest => pure (.list (value :: reversed).reverse, rest)
      | _ => none

def readInline (depth : Nat) (entries : Entries) :
    (rounds : Nat) → List Char → Option (Value × List Char)
  | 0, _ => none
  | rounds + 1, chars => do
      let (path, rest) ← key? chars
      let rest ← expect? '=' rest
      let (value, rest) ← readValue depth rounds (skipBlanks rest)
      let entries ← entries.addValue value true path
      match skipBlanks rest with
      | ',' :: rest => readInline depth entries rounds rest
      | '\x7d' :: rest => pure (.record (Item.toEntries entries), rest)
      | _ => none

end

/-! ## Lines -/

structure Progress where
  entries : Entries := []
  /-- The header of the table at hand. -/
  header : List String := []
deriving Repr

def readLine (progress : Progress) (chars : List Char) : Option (Progress × List Char) :=
  match chars with
  | '[' :: '[' :: rest => do
      let (header, rest) ← key? rest
      let rest ← expect? ']' (← expect? ']' rest)
      pure ({ entries := ← progress.entries.addTable header, header }, ← endOfLine? rest)
  | '[' :: rest => do
      let (header, rest) ← key? rest
      let rest ← expect? ']' rest
      pure ({ entries := ← progress.entries.openTable header, header }, ← endOfLine? rest)
  | _ => do
      let (path, rest) ← key? chars
      let rest ← expect? '=' rest
      let (value, rest) ← readValue greatestDepth (2 * rest.length + 2) (skipBlanks rest)
      let entries ← progress.entries.addBelow progress.header path value
      pure ({ progress with entries }, ← endOfLine? rest)

def readLines (progress : Progress) (chars : List Char) : (rounds : Nat) → Option Progress
  | 0 => none
  | rounds + 1 =>
      match skipAll chars with
      | [] => some progress
      | '#' :: rest => if rest.all isTextChar then some progress else none
      | chars => do
          let (progress, rest) ← readLine progress chars
          readLines progress rest rounds

/-- The value of a whole file. A byte order mark in front does not count. -/
def document? (text : String) : Option Value :=
  let chars := match text.toList with
    | '\uFEFF' :: rest => rest
    | chars => chars
  (readLines {} chars (chars.length + 1)).map fun progress =>
    .record (Item.toEntries progress.entries)

end SolutionLists.Toml
