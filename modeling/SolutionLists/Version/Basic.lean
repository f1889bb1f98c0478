import SolutionLists.Text.Search

namespace SolutionLists

/-! Semantic versions: three numbers, then optional identifiers of a pre-release and
of a build. -/

structure Version where
  major : Nat
  minor : Nat
  patch : Nat
  preRelease : List String := []
  build : List String := []
deriving DecidableEq, Repr, Inhabited

namespace Version

def largestPart : Nat := 0xFFFFFFFFFFFFFFFF

/-! ## Reading -/

def part? (digits : List Char) : Option Nat :=
  if digits ≠ [] ∧ digits.all Char.isDigit then
    let value := digits.foldl (fun value digit => 10 * value + (digit.toNat - '0'.toNat)) 0
    if value ≤ largestPart then some value else none
  else none

def hasLeadingZero (digits : List Char) : Bool :=
  match digits with
  | '0' :: _ :: _ => true
  | _ => false

def exactPart? (digits : List Char) : Option Nat :=
  if hasLeadingZero digits then none else part? digits

def isIdentifierChar (char : Char) : Bool :=
  char.isAlphanum || char == '-'

/-- Identifiers are separated by dots, and none is empty. Where `strict` holds, a
number among them has no leading zero. -/
def identifiers? (strict : Bool) (chars : List Char) : Option (List String) :=
  let parts := chars.splitOn '.'
  if parts.all fun part =>
      part ≠ [] && part.all isIdentifierChar &&
        !(strict && part.all Char.isDigit && hasLeadingZero part) then
    some (parts.map String.ofList)
  else none

def marked? (strict : Bool) (chars : List Char) : Option (List String) :=
  match chars with
  | [] => some []
  | _ :: rest => identifiers? strict rest

def parse? (text : String) : Option Version :=
  let core := text.toList.takeWhile fun char => char ≠ '-' ∧ char ≠ '+'
  let rest := text.toList.drop core.length
  let preRelease := rest.takeWhile (· ≠ '+')
  let build := rest.dropWhile (· ≠ '+')
  match core.splitOn '.' with
  | [major, minor, patch] =>
      match exactPart? major, exactPart? minor, exactPart? patch,
        marked? true preRelease, marked? false build with
      | some major, some minor, some patch, some preRelease, some build =>
          some { major, minor, patch, preRelease, build }
      | _, _, _, _, _ => none
  | _ => none

/-! ## Writing -/

def coreText (version : Version) : String :=
  toString version.major ++ "." ++ toString version.minor ++ "." ++ toString version.patch

def text (version : Version) : String :=
  let marked := fun (mark : String) (identifiers : List String) =>
    if identifiers = [] then "" else mark ++ ".".intercalate identifiers
  version.coreText ++ marked "-" version.preRelease ++ marked "+" version.build

/-! ## Order -/

/-- What identifiers are compared by: numbers before words, numbers by value and
then by length, words by their characters. -/
structure Rank where
  isWord : Bool
  value : Nat
  length : Nat
  word : List Char
deriving DecidableEq, Repr

namespace Rank

def ofIdentifier (identifier : String) : Rank :=
  let chars := identifier.toList
  if chars.all Char.isDigit then
    { isWord := false
      value := chars.foldl (fun value digit => 10 * value + (digit.toNat - '0'.toNat)) 0
      length := chars.length
      word := [] }
  else { isWord := true, value := 0, length := 0, word := chars }

def compareWords : List Char → List Char → Ordering
  | [], [] => .eq
  | [], _ :: _ => .lt
  | _ :: _, [] => .gt
  | first :: left, second :: right =>
      (compare first.toNat second.toNat).then (compareWords left right)

def order (left right : Rank) : Ordering :=
  (compare left.isWord.toNat right.isWord.toNat).then <|
    (compare left.value right.value).then <|
      (compare left.length right.length).then (compareWords left.word right.word)

end Rank

def compareIdentifiers : List String → List String → Ordering
  | [], [] => .eq
  | [], _ :: _ => .lt
  | _ :: _, [] => .gt
  | first :: left, second :: right =>
      ((Rank.ofIdentifier first).order (Rank.ofIdentifier second)).then
        (compareIdentifiers left right)

def comparePreReleases (left right : List String) : Ordering :=
  (compare left.isEmpty.toNat right.isEmpty.toNat).then (compareIdentifiers left right)

/-- Versions stand in order of their numbers, then of the pre-release, then of the
build, where one without build identifiers comes first. -/
def order (left right : Version) : Ordering :=
  (compare left.major right.major).then <|
    (compare left.minor right.minor).then <|
      (compare left.patch right.patch).then <|
        (comparePreReleases left.preRelease right.preRelease).then
          (compareIdentifiers left.build right.build)

instance : Ord Version := ⟨order⟩

instance : LE Version := ⟨fun left right => (order left right).isLE = true⟩

instance : LT Version := ⟨fun left right => order left right = .lt⟩

instance (left right : Version) : Decidable (left ≤ right) :=
  inferInstanceAs (Decidable ((order left right).isLE = true))

instance (left right : Version) : Decidable (left < right) :=
  inferInstanceAs (Decidable (order left right = .lt))

example : parse? "1.0.0-alpha.1+b" =
    some { major := 1, minor := 0, patch := 0, preRelease := ["alpha", "1"], build := ["b"] } := by
  decide
example : parse? "1.02.0" = none := by decide
example : ({ major := 1, minor := 0, patch := 0, preRelease := ["rc"] } : Version) <
    { major := 1, minor := 0, patch := 0 } := by decide

end Version

end SolutionLists
