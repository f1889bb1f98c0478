import SolutionLists.Decimal.Notation
import SolutionLists.Document.Value

namespace SolutionLists.Toml

/-! Scalars of a configuration file: texts between quotation marks, numbers, dates and
times. Every reader returns what it has read with the characters behind it. -/

open Document (Value)
open Text (natural? digitValue? splitSign charOfCode?)

/-! ## Characters -/

def isBlank (char : Char) : Bool :=
  char = ' ' || char = '\t'

def skipBlanks (chars : List Char) : List Char :=
  chars.dropWhile isBlank

def isTextChar (char : Char) : Bool :=
  char = '\t' || (' ' ≤ char && char ≠ '\x7f')

def newline? : List Char → Option (List Char)
  | '\n' :: rest => some rest
  | '\r' :: '\n' :: rest => some rest
  | _ => none

/-! ## Texts -/

def escapes : List (Char × Char) :=
  [('b', '\x08'), ('t', '\t'), ('n', '\n'), ('f', '\x0c'), ('r', '\r'), ('"', '"'), ('\\', '\\')]

def codeEscapes : List (Char × Nat) := [('u', 4), ('U', 8)]

def escape? : List Char → Option (Char × Nat)
  | [] => none
  | kind :: rest =>
      match escapes.lookup kind, codeEscapes.lookup kind with
      | some char, _ => some (char, 1)
      | none, some digits =>
          if rest.length < digits then none
          else
            ((natural? 16 (rest.take digits)).bind charOfCode?).map fun char =>
              (char, digits + 1)
      | none, none => none

/-- The rest of a text on one line. `skip` characters belong to what has been read;
`reversed` is the text so far, the last character in front. -/
def lineText (quote : Char) (skip : Nat) (reversed : List Char) :
    List Char → Option (String × List Char)
  | [] => none
  | char :: rest =>
      match skip with
      | skip + 1 => lineText quote skip reversed rest
      | 0 =>
          if char = quote then some (String.ofList reversed.reverse, rest)
          else if !isTextChar char then none
          else if char = '\\' && quote = '"' then
            match escape? rest with
            | some (char, length) => lineText quote length (char :: reversed) rest
            | none => none
          else lineText quote 0 (char :: reversed) rest

def lineEnd? (chars : List Char) : Option Nat :=
  let rest := skipBlanks chars
  (newline? rest).map fun behind =>
    let next := behind.dropWhile fun char => isBlank char || char = '\n' || char = '\r'
    chars.length - next.length

/-- The rest of a text over several lines. It ends with three quotation marks, and up
to two more in front of them belong to it. -/
def blockText (quote : Char) (skip : Nat) (reversed : List Char) :
    List Char → Option (String × List Char)
  | [] => none
  | char :: rest =>
      match skip with
      | skip + 1 => blockText quote skip reversed rest
      | 0 =>
          if char = quote then
            let count := ((char :: rest).takeWhile (· = quote)).length
            if count < 3 then blockText quote 0 (char :: reversed) rest
            else
              let kept := min 2 (count - 3)
              some (String.ofList (List.replicate kept quote ++ reversed).reverse,
                rest.drop (kept + 2))
          else if char = '\\' && quote = '"' then
            match lineEnd? rest with
            | some length => blockText quote length reversed rest
            | none =>
                match escape? rest with
                | some (char, length) => blockText quote length (char :: reversed) rest
                | none => none
          else if char = '\r' && rest.head? = some '\n' then
            blockText quote 1 ('\n' :: reversed) rest
          else if char = '\n' || isTextChar char then blockText quote 0 (char :: reversed) rest
          else none

def text? : List Char → Option (String × List Char)
  | '"' :: '"' :: '"' :: rest => blockText '"' 0 [] ((newline? rest).getD rest)
  | '\'' :: '\'' :: '\'' :: rest => blockText '\'' 0 [] ((newline? rest).getD rest)
  | '"' :: rest => lineText '"' 0 [] rest
  | '\'' :: rest => lineText '\'' 0 [] rest
  | _ => none

/-! ## Keys -/

def isBareChar (char : Char) : Bool :=
  char.isAlphanum || char = '_' || char = '-'

def keyPart? (chars : List Char) : Option (String × List Char) :=
  match chars with
  | '"' :: rest => lineText '"' 0 [] rest
  | '\'' :: rest => lineText '\'' 0 [] rest
  | _ =>
      let bare := chars.takeWhile isBareChar
      if bare = [] then none else some (String.ofList bare, chars.drop bare.length)

/-! ## Numbers -/

/-- Digits with single underscores between them. `inside` tells whether a digit stands
in front. -/
def digitsFrom (isDigit : Char → Bool) (inside : Bool) : List Char → List Char × List Char
  | [] => ([], [])
  | char :: rest =>
      if isDigit char then
        let (more, left) := digitsFrom isDigit true rest
        (char :: more, left)
      else if char = '_' && inside && rest.head?.any isDigit then digitsFrom isDigit false rest
      else ([], char :: rest)

def digits (isDigit : Char → Bool) (chars : List Char) : List Char × List Char :=
  digitsFrom isDigit false chars

def bases : List (Char × Nat) := [('x', 16), ('o', 8), ('b', 2)]

def smallInteger? (value : Int) : Option Value :=
  if -0x8000000000000000 ≤ value ∧ value < 0x8000000000000000 then some (.integer value) else none

def basedInteger? (base : Nat) (chars : List Char) : Option (Value × List Char) := do
  let (number, rest) := digits (fun char => (digitValue? base char).isSome) chars
  let value ← natural? base number
  (smallInteger? value).map fun value => (value, rest)

def fraction? (chars : List Char) : Option (List Char × List Char) := do
  let (fraction, rest) ←
    match chars with
    | '.' :: rest =>
        let (fraction, rest) := digits Char.isDigit rest
        if fraction = [] then none else some ('.' :: fraction, rest)
    | _ => some ([], chars)
  match rest with
  | mark :: rest' =>
      if mark = 'e' || mark = 'E' then
        let (sign, power) := splitSign rest'
        let (exponent, rest) := digits Char.isDigit power
        if exponent = [] then none
        else some (fraction ++ 'e' :: sign.toList ++ exponent, rest)
      else some (fraction, rest)
  | [] => some (fraction, [])

def number? (chars : List Char) : Option (Value × List Char) :=
  let (sign, body) := splitSign chars
  match body with
  | 'i' :: 'n' :: 'f' :: rest => some (.decimal (.infinite (sign = some '-')), rest)
  | 'n' :: 'a' :: 'n' :: rest => some (.decimal .notANumber, rest)
  | '0' :: mark :: rest =>
      match sign, bases.lookup mark with
      | none, some base => basedInteger? base rest
      | _, _ => decimal sign body
  | _ => decimal sign body
where
  decimal (sign : Option Char) (body : List Char) : Option (Value × List Char) := do
    let (whole, rest) := digits Char.isDigit body
    if whole = [] || (whole.head? = some '0' && 1 < whole.length) then none
    else
      let (fraction, behind) ← fraction? rest
      if fraction = [] then
        let magnitude ← natural? 10 whole
        let value : Int := if sign = some '-' then -(magnitude : Int) else magnitude
        (smallInteger? value).map fun value => (value, behind)
      else
        match ← Double.ofNotation? (sign = some '-') (whole ++ fraction) with
        | .infinite false => none
        | value => some (.decimal value, behind)

/-! ## Dates and times -/

def field? (count least greatest : Nat) (chars : List Char) : Option (Nat × List Char) := do
  let number ← natural? 10 (chars.take count)
  if (chars.take count).length = count && least ≤ number && number ≤ greatest then
    some (number, chars.drop count)
  else none

def expect? (char : Char) : List Char → Option (List Char)
  | head :: rest => if head = char then some rest else none
  | [] => none

def daysInMonth (year month : Nat) : Nat :=
  if month = 2 then
    if year % 4 = 0 ∧ (year % 100 ≠ 0 ∨ year % 400 = 0) then 29 else 28
  else if month ∈ [4, 6, 9, 11] then 30
  else 31

def date? (chars : List Char) : Option (List Char) := do
  let (year, rest) ← field? 4 0 9999 chars
  let (month, rest) ← field? 2 1 12 (← expect? '-' rest)
  let (_, rest) ← field? 2 1 (daysInMonth year month) (← expect? '-' rest)
  pure rest

def time? (chars : List Char) : Option (List Char) := do
  let (_, rest) ← field? 2 0 23 chars
  let (_, rest) ← field? 2 0 59 (← expect? ':' rest)
  let (_, rest) ← field? 2 0 60 (← expect? ':' rest)
  match rest with
  | '.' :: digit :: behind =>
      pure (if digit.isDigit then behind.dropWhile Char.isDigit else rest)
  | _ => pure rest

def afterOffset (chars : List Char) : List Char :=
  match chars with
  | 'Z' :: rest | 'z' :: rest => rest
  | '+' :: rest | '-' :: rest =>
      let offset := do
        let (_, rest) ← field? 2 0 23 rest
        let (_, rest) ← field? 2 0 59 (← expect? ':' rest)
        pure rest
      offset.getD chars
  | _ => chars

def dateTime? (chars : List Char) : Option (List Char) :=
  match date? chars with
  | none => time? chars
  | some rest =>
      match rest with
      | mark :: behind =>
          if mark = 'T' || mark = 't' || mark = ' ' then
            match time? behind with
            | some behind => some (afterOffset behind)
            | none => some rest
          else some rest
      | [] => some []

/-- A date or time is an object that has no use for its content. -/
def scalar? (chars : List Char) : Option (Value × List Char) :=
  match chars with
  | 't' :: 'r' :: 'u' :: 'e' :: rest => some (.bool true, rest)
  | 'f' :: 'a' :: 'l' :: 's' :: 'e' :: rest => some (.bool false, rest)
  | '"' :: _ | '\'' :: _ => (text? chars).map fun (text, rest) => (.text text, rest)
  | _ =>
      match dateTime? chars with
      | some rest =>
          let written := String.ofList (chars.take (chars.length - rest.length))
          some (.record [("datetime", .text written)], rest)
      | none => number? chars

end SolutionLists.Toml
