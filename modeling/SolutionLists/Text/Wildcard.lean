import SolutionLists.Text.Search

namespace SolutionLists.Text

/-! Patterns that stand for texts. `?` is any character, `[ab-d]` one of a class and
`[!ab-d]` one outside of it, `*` any run of characters. `**` stands between slashes or
at an end of the pattern and is any run of whole components. -/

inductive WildcardPart where
  | exact (char : Char)
  | one
  | inside (ranges : List (Char × Char))
  | outside (ranges : List (Char × Char))
  | run
  | components
deriving DecidableEq, Repr

inductive WildcardFault where
  | tooManyStars
  | starsInComponent
  | openClass
deriving DecidableEq, Repr

def WildcardFault.text : WildcardFault → String
  | tooManyStars => "wildcards are either regular `*` or recursive `**`"
  | starsInComponent => "recursive wildcards must form a single path component"
  | openClass => "invalid range pattern"

structure WildcardError where
  position : Nat
  fault : WildcardFault
deriving DecidableEq, Repr

def WildcardError.message (error : WildcardError) : String :=
  "Pattern syntax error near position " ++ toString error.position ++ ": " ++ error.fault.text

structure Wildcard where
  parts : List WildcardPart
deriving DecidableEq, Repr

namespace Wildcard

/-! ## Reading -/

def ranges : List Char → List (Char × Char)
  | low :: '-' :: high :: rest => (low, high) :: ranges rest
  | char :: rest => (char, char) :: ranges rest
  | [] => []

/-- The members of a class and the number of characters up to its closing bracket,
which is not looked for at the first of them. -/
def classMembers? : List Char → Option (List Char × Nat)
  | [] => none
  | first :: rest =>
      let more := rest.takeWhile (· ≠ ']')
      if more.length < rest.length then some (first :: more, more.length + 2) else none

def class? : List Char → Option (WildcardPart × Nat)
  | '!' :: rest =>
      (classMembers? rest).map fun (members, length) => (.outside (ranges members), length + 1)
  | rest => (classMembers? rest).map fun (members, length) => (.inside (ranges members), length)

/-- The part at the start of a pattern, and the number of characters it takes. `before`
is the character in front of it, and `position` where it starts. -/
def firstPart (before : Option Char) (position : Nat) :
    (head : Char) → (rest : List Char) → Except WildcardError (WildcardPart × Nat)
  | '?', _ => .ok (.one, 1)
  | '*', '*' :: '*' :: _ => .error ⟨position + 2, .tooManyStars⟩
  | '*', '*' :: rest =>
      if before.any (· ≠ '/') then .error ⟨position - 1, .starsInComponent⟩
      else
        match rest with
        | [] => .ok (.components, 2)
        | '/' :: _ => .ok (.components, 3)
        | _ => .error ⟨position + 2, .starsInComponent⟩
  | '*', _ => .ok (.run, 1)
  | '[', rest =>
      match class? rest with
      | some (part, length) => .ok (part, length + 1)
      | none => .error ⟨position, .openClass⟩
  | char, _ => .ok (.exact char, 1)

def readFrom (before : Option Char) (position skip : Nat) :
    List Char → Except WildcardError (List WildcardPart)
  | [] => .ok []
  | head :: rest =>
      match skip with
      | skip + 1 => readFrom (some head) (position + 1) skip rest
      | 0 =>
          match firstPart before position head rest with
          | .error error => .error error
          | .ok (part, length) =>
              (readFrom (some head) (position + 1) (length - 1) rest).map (part :: ·)

def parse (text : String) : Except WildcardError Wildcard :=
  (readFrom none 0 0 text.toList).map Wildcard.mk

/-! ## Acceptance -/

def inRanges (ranges : List (Char × Char)) (char : Char) : Bool :=
  ranges.any fun (low, high) => decide (low ≤ char) && decide (char ≤ high)

def acceptsOne : WildcardPart → Char → Bool
  | .exact expected, char => expected = char
  | .one, _ => true
  | .inside ranges, char => inRanges ranges char
  | .outside ranges, char => !inRanges ranges char
  | .run, _ | .components, _ => false

def ends {α : Type} : List α → List (List α)
  | [] => [[]]
  | head :: tail => (head :: tail) :: ends tail

def behindSlashes : List Char → List (List Char)
  | [] => [[]]
  | head :: tail => if head = '/' then tail :: behindSlashes tail else behindSlashes tail

def rests : WildcardPart → List Char → List (List Char)
  | .run, chars => ends chars
  | .components, chars => chars :: behindSlashes chars
  | _, [] => []
  | part, char :: rest => if acceptsOne part char then [rest] else []

/-- Whether the parts, one after the other, may leave nothing of a text. -/
def accepts (wildcard : Wildcard) (text : String) : Bool :=
  (wildcard.parts.foldl (fun texts part => (texts.flatMap (rests part)).eraseDups)
    [text.toList]).contains []

example : (parse "[!a-c]?*").toOption =
    some ⟨[.outside [('a', 'c')], .one, .run]⟩ := by decide
example : (parse "a**").toOption = none := by decide
example : accepts ⟨[.components, .exact 'x']⟩ "a/b/x" = true := by decide

end Wildcard

end SolutionLists.Text
