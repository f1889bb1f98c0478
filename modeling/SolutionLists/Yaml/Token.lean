import SolutionLists.Yaml.Scalar

namespace SolutionLists.Yaml

/-! Tokens of a document. Blocks are closed and keys are marked by tokens of their
own, although no character stands for them. -/

inductive Token where
  | versionDirective (major minor : Nat)
  | tagDirective (handle start : String)
  | documentStart
  | documentEnd
  | blockSequenceStart
  | blockMappingStart
  | blockEnd
  | flowSequenceStart
  | flowSequenceEnd
  | flowMappingStart
  | flowMappingEnd
  | blockEntry
  | flowEntry
  | key
  | value
  | reference (name : String)
  | anchor (name : String)
  | tag (handle ending : String)
  | scalar (plain : Bool) (text : String)
deriving DecidableEq, Repr

/-! ## Anchors -/

def anchorName? (marks : Marks) : Option (String × Marks) :=
  let (name, rest) := Marks.span marks isNameChar
  let closers : List Char := ['?', ':', ',', ']', '}', '%', '@', '`']
  if name ≠ [] ∧ (Marks.startsSpacing rest ∨ (Marks.first? rest).any closers.contains) then
    some (String.ofList name, rest)
  else none

/-! ## Tags -/

def isTagChar (char : Char) : Bool :=
  isNameChar char ||
    [';', '/', '?', ':', '@', '&', '=', '+', '$', '.', '%', '!', '~', '*', '\'', '(', ')'].contains
      char

def octet? (chars : List Char) : Option Nat :=
  match chars with
  | '%' :: high :: low :: _ => Text.natural? 16 [high, low]
  | _ => none

def octetCount? (octet : Nat) : Option Nat :=
  if octet < 0x80 then some 1
  else if octet < 0xC0 then none
  else if octet < 0xE0 then some 2
  else if octet < 0xF0 then some 3
  else if octet < 0xF8 then some 4
  else none

def trailingOctets? (chars : List Char) : (count : Nat) → (code : Nat) → Option Nat
  | 0, code => some code
  | count + 1, code =>
      match octet? chars with
      | some octet =>
          if octet / 0x40 = 2 then
            trailingOctets? (chars.drop 3) count (0x40 * code + octet % 0x40)
          else none
      | none => none

def unescapeTag (skip : Nat) : List Char → Option (List Char)
  | [] => some []
  | char :: rest =>
      match skip with
      | skip + 1 => unescapeTag skip rest
      | 0 =>
          if char ≠ '%' then (unescapeTag 0 rest).map (char :: ·)
          else do
            let octet ← octet? (char :: rest)
            let count ← octetCount? octet
            let start := if count = 1 then octet else octet % Nat.pow 2 (7 - count)
            let code ← trailingOctets? (rest.drop 2) (count - 1) start
            let unescaped ← unescapeTag (3 * count - 1) rest
            pure (Char.ofNat code :: unescaped)

def tagText? (marks : Marks) (accepts : Char → Bool) : Option (String × Marks) :=
  let (chars, rest) := Marks.span marks accepts
  if chars = [] then none
  else (unescapeTag 0 chars).map fun unescaped => (String.ofList unescaped, rest)

def tagHandle (marks : Marks) : String × Marks :=
  let (name, rest) := Marks.span marks isNameChar
  if Marks.first? rest = some '!' then (String.ofList ('!' :: name ++ ['!']), rest.drop 1)
  else (String.ofList ('!' :: name), rest)

/-- Characters of a whole tag, or of the start of one that a directive gives: what follows
a handle stops before the marks of a flow collection, these do not. -/
def isUriChar (char : Char) : Bool :=
  isTagChar char || char = ',' || char = '[' || char = ']'

/-- A tag behind its first character: `!<uri>`, a handle with an ending, `!ending`, or
`!` alone. -/
def tag? (inFlow : Bool) (marks : Marks) : Option (Token × Marks) := do
  let (token, rest) ←
    if Marks.first? marks = some '<' then do
      let (uri, rest) ← tagText? (marks.drop 1) isUriChar
      if Marks.first? rest = some '>' then some (Token.tag "" uri, rest.drop 1) else none
    else
      let (handle, behind) := tagHandle marks
      if 1 < handle.length ∧ handle.back = '!' then do
        let (ending, rest) ← tagText? behind isTagChar
        some (Token.tag handle ending, rest)
      else
        let (ending, rest) := Marks.span marks isTagChar
        let unescaped ← unescapeTag 0 ending
        if unescaped = [] then some (Token.tag "" "!", rest)
        else some (Token.tag "!" (String.ofList unescaped), rest)
  if Marks.startsSpacing rest || (inFlow && Marks.first? rest = some ',') then some (token, rest)
  else none

/-! ## Directives -/

def versionNumber? (marks : Marks) : Option (Nat × Marks) :=
  let (digits, rest) := Marks.span marks Char.isDigit
  if digits = [] ∨ 9 < digits.length then none
  else some (digits.foldl (fun number digit => 10 * number + (digit.toNat - '0'.toNat)) 0, rest)

def endOfLine? (marks : Marks) : Option Marks :=
  let rest := (Marks.span marks isBlank).2
  let rest := if Marks.first? rest = some '#' then (Marks.span rest (!isBreak ·)).2 else rest
  if Marks.startsBreak rest then some (rest.drop 1) else none

def directive? (marks : Marks) : Option (Token × Marks) := do
  let (name, rest) := Marks.span marks isNameChar
  let arguments := (Marks.span rest isBlank).2
  if !Marks.startsSpacing rest then none
  else if name = "YAML".toList then
    let (major, behind) ← versionNumber? arguments
    if Marks.first? behind ≠ some '.' then none
    else
      let (minor, behind) ← versionNumber? (behind.drop 1)
      (endOfLine? behind).map fun rest => (.versionDirective major minor, rest)
  else if name = "TAG".toList ∧ Marks.first? arguments = some '!' then
    let (handle, behind) := tagHandle (arguments.drop 1)
    if (handle ≠ "!" ∧ handle.back ≠ '!') ∨ !(Marks.first? behind).any isBlank then none
    else
      let (start, behind) ← tagText? (Marks.span behind isBlank).2 isUriChar
      if Marks.startsSpacing behind then
        (endOfLine? behind).map fun rest => (.tagDirective handle start, rest)
      else none
  else none

end SolutionLists.Yaml
