import SolutionLists.Text.Blank
import SolutionLists.Version.Range

namespace SolutionLists.Version

/-! Constraints on versions as descriptions write them: comparators side by side all
have to hold, alternatives are separated by `||`. Versions may be partial, and a
bare one has to match exactly. -/

inductive ConstraintError where
  | empty
  | emptyAlternative (source : String)
  | operatorWithoutVersion (operator : String)
  | missingVersion (comparator : String)
  | tooManyParts (text : String)
  | numberAfterWildcard (text : String)
  | invalidVersion (text : String)
  | tooLarge (part : Nat)
  | unknownOperator (operator : String)
deriving DecidableEq, Repr

def ConstraintError.message : ConstraintError → String
  | empty => "empty constraint"
  | emptyAlternative source => "empty alternative in `" ++ source ++ "`"
  | operatorWithoutVersion operator => "operator `" ++ operator ++ "` without version"
  | missingVersion comparator => "missing version in `" ++ comparator ++ "`"
  | tooManyParts text => "too many version components in `" ++ text ++ "`"
  | numberAfterWildcard text => "number after wildcard in `" ++ text ++ "`"
  | invalidVersion text => "invalid version `" ++ text ++ "`"
  | tooLarge part => "version component " ++ toString part ++ " is too large"
  | unknownOperator operator => "unknown operator `" ++ operator ++ "`"

/-! ## Tokens -/

def isOperatorChar (char : Char) : Bool :=
  char ∈ ['<', '>', '=', '!', '~', '^']

def alternatives : List Char → List (List Char)
  | '|' :: '|' :: rest => [] :: alternatives rest
  | [] => [[]]
  | head :: rest =>
      match alternatives rest with
      | [] => [[head]]
      | first :: others => (head :: first) :: others

def tokens (alternative : List Char) : List (List Char) :=
  (alternative.splitOnP fun char => char == ',' || Text.isBlank char).filter (· ≠ [])

def joinOperators (pending : Option (List Char)) :
    List (List Char) → Except ConstraintError (List (List Char))
  | [] =>
      match pending with
      | some operator => .error (.operatorWithoutVersion (String.ofList operator))
      | none => .ok []
  | token :: rest =>
      if token.all isOperatorChar then
        match pending with
        | some _ => .error (.operatorWithoutVersion (String.ofList token))
        | none => joinOperators (some token) rest
      else
        match joinOperators none rest with
        | .error error => .error error
        | .ok comparators => .ok ((pending.getD [] ++ token) :: comparators)

/-! ## Partial versions -/

structure Partial where
  major : Option Nat
  minor : Option Nat
  patch : Option Nat
deriving DecidableEq, Repr

namespace Partial

def isWildcard (part : List Char) : Bool :=
  part ∈ [['x'], ['X'], ['*']]

/-- Read the parts between dots. `text` is what errors quote, `room` the number of
parts that may still come. -/
def readParts (text : String) (wildcard : Bool) :
    (room : Nat) → List (List Char) → Except ConstraintError (List Nat)
  | _, [] => .ok []
  | 0, _ :: _ => .error (.tooManyParts text)
  | room + 1, part :: rest =>
      if isWildcard part then readParts text true room rest
      else if wildcard then .error (.numberAfterWildcard text)
      else
        match part? part with
        | none => .error (.invalidVersion text)
        | some value =>
            match readParts text false room rest with
            | .error error => .error error
            | .ok values => .ok (value :: values)

/-- Read a partial version. A leading `v` and what follows `-` or `+` do not take
part in matching. -/
def parse (chars : List Char) : Except ConstraintError Partial :=
  let chars := match chars with
    | 'v' :: rest => rest
    | _ => chars
  let core := chars.takeWhile fun char => char ≠ '-' ∧ char ≠ '+'
  match readParts (String.ofList chars) false 3 (core.splitOn '.') with
  | .error error => .error error
  | .ok values => .ok ⟨values[0]?, values[1]?, values[2]?⟩

def floor (version : Partial) : Version where
  major := version.major.getD 0
  minor := version.minor.getD 0
  patch := version.patch.getD 0

end Partial

def next (part : Nat) : Except ConstraintError Nat :=
  if part < largestPart then .ok (part + 1) else .error (.tooLarge part)

namespace Partial

def ceiling (version : Partial) : Except ConstraintError (Option Version) :=
  match version with
  | ⟨none, _, _⟩ => .ok none
  | ⟨some major, none, _⟩ => (next major).map fun major => some ⟨major, 0, 0, [], []⟩
  | ⟨some major, some minor, none⟩ =>
      (next minor).map fun minor => some ⟨major, minor, 0, [], []⟩
  | ⟨some major, some minor, some patch⟩ =>
      (next patch).map fun patch => some ⟨major, minor, patch, [], []⟩

/-- The lowest release above the patches of a version, or above the minor versions
where only the major one is given. -/
def patchCeiling (version : Partial) : Except ConstraintError (Option Version) :=
  match version with
  | ⟨some major, some minor, _⟩ => (next minor).map fun minor => some ⟨major, minor, 0, [], []⟩
  | ⟨some major, none, _⟩ => (next major).map fun major => some ⟨major, 0, 0, [], []⟩
  | ⟨none, _, _⟩ => .ok none

/-- The lowest release that differs at the first number that is not zero. -/
def caretCeiling (version : Partial) : Except ConstraintError (Option Version) :=
  match version with
  | ⟨none, _, _⟩ => .ok none
  | ⟨some 0, none, _⟩ => .ok (some ⟨1, 0, 0, [], []⟩)
  | ⟨some 0, some 0, none⟩ => .ok (some ⟨0, 1, 0, [], []⟩)
  | ⟨some 0, some 0, some patch⟩ => (next patch).map fun patch => some ⟨0, 0, patch, [], []⟩
  | ⟨some 0, some minor, _⟩ => (next minor).map fun minor => some ⟨0, minor, 0, [], []⟩
  | ⟨some major, _, _⟩ => (next major).map fun major => some ⟨major, 0, 0, [], []⟩

def upTo (version : Partial) (ceiling : Option Version) : Range :=
  match ceiling with
  | some ceiling => .between version.floor ceiling
  | none => .full

end Partial

/-! ## Comparators -/

inductive Operator where
  | equal
  | notEqual
  | greater
  | greaterOrEqual
  | less
  | lessOrEqual
  | tilde
  | caret
deriving DecidableEq, Repr

namespace Operator

def spellings : List (List Char × Operator) :=
  [([], equal), (['='], equal), (['=', '='], equal), (['!', '='], notEqual),
    (['>'], greater), (['>', '='], greaterOrEqual), (['=', '>'], greaterOrEqual),
    (['<'], less), (['<', '='], lessOrEqual), (['=', '<'], lessOrEqual),
    (['~'], tilde), (['~', '>'], tilde), (['^'], caret)]

def range (operator : Operator) (version : Partial) : Except ConstraintError Range :=
  match operator with
  | equal => version.ceiling.map version.upTo
  | notEqual => version.ceiling.map fun ceiling => (version.upTo ceiling).complement
  | greater => version.ceiling.map fun
      | some ceiling => .atLeast ceiling
      | none => .empty
  | greaterOrEqual => .ok (.atLeast version.floor)
  | less => .ok (.below version.floor)
  | lessOrEqual => version.ceiling.map fun
      | some ceiling => .below ceiling
      | none => .full
  | tilde => version.patchCeiling.map version.upTo
  | caret => version.caretCeiling.map version.upTo

end Operator

def comparatorRange (comparator : List Char) : Except ConstraintError Range :=
  let operator := comparator.takeWhile isOperatorChar
  match comparator.dropWhile isOperatorChar with
  | [] => .error (.missingVersion (String.ofList comparator))
  | version =>
      match Partial.parse version with
      | .error error => .error error
      | .ok version =>
          match Operator.spellings.lookup operator with
          | none => .error (.unknownOperator (String.ofList operator))
          | some operator => operator.range version

/-! ## Constraints -/

structure Constraint where
  source : String
  range : Range
deriving DecidableEq, Repr

namespace Constraint

def conjunction (comparators : List (List Char)) : Except ConstraintError Range :=
  comparators.foldlM (fun range comparator =>
    (comparatorRange comparator).map range.intersection) .full

def alternativeRange (source : String) (alternative : List Char) :
    Except ConstraintError Range :=
  match joinOperators none (tokens alternative) with
  | .error error => .error error
  | .ok [] => .error (.emptyAlternative source)
  | .ok comparators => conjunction comparators

def parse (text : String) : Except ConstraintError Constraint :=
  let source := Text.trim text
  if source = "" then .error .empty
  else
    ((alternatives source.toList).foldlM (fun range alternative =>
        (alternativeRange source alternative).map range.union) .empty).map
      fun range => { source, range }

def accepts (constraint : Constraint) (version : Version) : Bool :=
  constraint.range.contains version

end Constraint

end SolutionLists.Version
