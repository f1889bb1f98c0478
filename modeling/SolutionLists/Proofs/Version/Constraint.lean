import Mathlib.Data.List.Infix
import SolutionLists.Proofs.Version.Written

namespace SolutionLists.Version

/-! The text of a constraint and what it means. A text is read a second time here, as the
comparators that it writes: alternatives, the tokens of each with operators put in front of
what follows them, and the numbers of a token up to the first that is left open. The set
that is made of a text holds the releases that all comparators of an alternative admit. -/

/-! ## Alternatives -/

theorem alternatives_ne_nil (chars : List Char) : alternatives chars ≠ [] := by
  fun_cases alternatives chars <;> simp_all

theorem intercalate_alternatives (chars : List Char) :
    ['|', '|'].intercalate (alternatives chars) = chars := by
  fun_induction alternatives chars with
  | case1 rest induction =>
      rw [List.intercalate_cons_of_ne_nil (alternatives_ne_nil rest), induction]
      rfl
  | case2 => rfl
  | case3 head rest _ nothing induction => exact absurd nothing (alternatives_ne_nil rest)
  | case4 head rest _ first others more induction =>
      rw [more] at induction
      rw [← induction]
      cases others <;> rfl

theorem first_alternative {chars first : List Char} {others : List (List Char)}
    (parts : alternatives chars = first :: others) : first <+: chars := by
  have whole := intercalate_alternatives chars
  rw [parts] at whole
  rw [← whole]
  cases others with
  | nil => simp
  | cons second rest => exact ⟨_, rfl⟩

theorem separated_alternatives (chars : List Char) :
    ∀ alternative ∈ alternatives chars, ¬ ['|', '|'] <:+: alternative := by
  fun_induction alternatives chars with
  | case1 rest induction => simpa using induction
  | case2 => simp
  | case3 head rest _ nothing induction => exact absurd nothing (alternatives_ne_nil rest)
  | case4 head rest single first others more induction =>
      rw [more] at induction
      have parts := List.forall_mem_cons.mp induction
      refine List.forall_mem_cons.mpr ⟨fun inside => ?_, parts.2⟩
      rcases List.infix_cons_iff.mp inside with atStart | later
      · rcases List.cons_prefix_cons.mp atStart with ⟨rfl, next⟩
        rcases next.trans (first_alternative more) with ⟨tail, rfl⟩
        exact single tail rfl rfl
      · exact parts.1 later

theorem alternatives_of_single {chars : List Char} (single : ¬ ['|', '|'] <:+: chars) :
    alternatives chars = [chars] := by
  have whole := intercalate_alternatives chars
  cases parts : alternatives chars with
  | nil => exact absurd parts (alternatives_ne_nil chars)
  | cons first rest =>
      rw [parts] at whole
      cases rest with
      | nil => rw [← whole, List.intercalate_singleton]
      | cons second others =>
          refine absurd ⟨first, ['|', '|'].intercalate (second :: others), ?_⟩ single
          rw [← whole, List.intercalate_cons_cons]

/-! ## Comparators of an alternative -/

/-- The comparators of an alternative: a token of operator characters goes in front of the
token behind it. -/
def attach : List (List Char) → List (List Char)
  | first :: second :: rest =>
      if first.all isOperatorChar then (first ++ second) :: attach rest
      else first :: attach (second :: rest)
  | tokens => tokens

theorem joinOperators_eq {tokens comparators : List (List Char)}
    (joined : joinOperators none tokens = .ok comparators) : comparators = attach tokens := by
  -- An operator without a token behind it is refused, as are two operators in a row.
  fun_induction attach tokens generalizing comparators with
  | case1 first second rest isOperator induction =>
      simp only [joinOperators, if_pos isOperator] at joined
      split at joined
      case isTrue => cases joined
      case isFalse =>
        split at joined
        case h_1 => cases joined
        case h_2 others restJoined =>
          cases joined
          rw [induction restJoined]
          rfl
  | case2 first second rest isVersion induction =>
      rw [joinOperators, if_neg isVersion] at joined
      split at joined
      case h_1 => cases joined
      case h_2 others restJoined =>
        cases joined
        rw [induction restJoined]
        rfl
  | case3 tokens single =>
      match tokens, single with
      | [], _ =>
          cases joined
          rfl
      | [token], _ =>
          simp only [joinOperators] at joined
          split at joined
          case isTrue => cases joined
          case isFalse =>
            cases joined
            rfl
      | first :: second :: rest, single => exact absurd rfl (single first second rest)

/-! ## Numbers of a comparator -/

/-- The numbers of a partial version, those in front of the first that is left open. A
leading `v` and what follows `-` or `+` do not count. -/
def givenNumbers? (version : List Char) : Option (List Nat) :=
  let digits := match version with
    | 'v' :: rest => rest
    | _ => version
  let core := digits.takeWhile fun char => char ≠ '-' ∧ char ≠ '+'
  ((core.splitOn '.').takeWhile fun part => !Partial.isWildcard part).mapM part?

namespace Partial

theorem mapM_part? {numbers : List (List Char)} {given : List Nat}
    (written : List.Forall₂ WritesNumber numbers given) : numbers.mapM part? = some given := by
  induction written with
  | nil => rfl
  | cons first _ induction => simp [List.mapM_cons, part?_eq_some.mpr first, induction]

theorem givenNumbers?_of_written {version : List Char} {given : List Nat}
    (written : WritesVersion version given) : givenNumbers? version = some given := by
  rcases exists_splitOn_written written with
    ⟨numbers, wildcards, split, numbersWritten, isOpen, -⟩
  have inside : ∀ part ∈ numbers, (!isWildcard part) = true := by
    intro part member
    rcases exists_writesNumber numbersWritten part member with ⟨value, number⟩
    rw [not_isWildcard number]
    rfl
  have kept : (numbers ++ wildcards).takeWhile (fun part => !isWildcard part) = numbers := by
    rw [List.takeWhile_append_of_pos inside]
    cases wildcards with
    | nil => simp
    | cons first rest => simp [isOpen first List.mem_cons_self]
  change ((((behindMark version).takeWhile isCore).splitOn '.').takeWhile
    fun part => !isWildcard part).mapM part? = some given
  rw [split, kept, mapM_part? numbersWritten]

theorem parse_eq {version : List Char} {read : Partial} (parsed : parse version = .ok read) :
    ∃ given, givenNumbers? version = some given ∧ given.length ≤ 3 ∧ read = ofNumbers given := by
  rcases parse_iff.mp parsed with ⟨given, written, rfl⟩
  exact ⟨given, givenNumbers?_of_written written, written.short_fit.1, rfl⟩

end Partial

/-! ## Sets folded into one -/

/-- A comparator as it is written: the operator, then the numbers. -/
def Comparator.ofText? (text : List Char) : Option Comparator := do
  let operator ← Operator.spellings.lookup (text.takeWhile isOperatorChar)
  let given ← givenNumbers? (text.dropWhile isOperatorChar)
  some { operator, given }

/-- The comparators of an alternative as they are written. -/
def comparators? (alternative : List Char) : Option (List Comparator) :=
  (attach (tokens alternative)).mapM Comparator.ofText?

theorem means_comparatorRange {text : List Char} {range : Range}
    (found : comparatorRange text = .ok range) :
    ∃ comparator, Comparator.ofText? text = some comparator ∧
      range.Means comparator.Admits := by
  unfold comparatorRange at found
  dsimp only at found
  split at found
  case h_1 => cases found
  case h_2 =>
    split at found
    case h_1 => cases found
    case h_2 version parsed =>
      split at found
      case h_1 => cases found
      case h_2 operator spelled =>
        rcases Partial.parse_eq parsed with ⟨given, isGiven, short, rfl⟩
        refine ⟨⟨operator, given⟩, ?_, Comparator.means_admits short found⟩
        simp [Comparator.ofText?, spelled, isGiven]

section Fold

variable {Reading : Type} {meaning : Reading → Version → Prop}

/-- When sets that are made of parts are folded, what the parts say can be read off each of
them, and the sets mean that. -/
theorem foldlM_means {read? : List Char → Option Reading}
    {make : List Char → Except ConstraintError Range} {combine : Range → Range → Range}
    (each : ∀ part range, make part = .ok range →
      ∃ reading, read? part = some reading ∧ range.Means (meaning reading))
    {parts : List (List Char)} {start result : Range}
    (found : parts.foldlM (fun range part => (make part).map (combine range)) start =
      .ok result) :
    ∃ readings ranges, parts.mapM read? = some readings ∧
      List.Forall₂ (fun range reading => range.Means (meaning reading)) ranges readings ∧
      ranges.foldl combine start = result := by
  induction parts generalizing start with
  | nil => exact ⟨[], [], rfl, .nil, Except.ok.inj found⟩
  | cons part rest induction =>
      rw [List.foldlM_cons] at found
      cases made : make part with
      | error error =>
          rw [made] at found
          cases found
      | ok range =>
          rw [made] at found
          rcases induction found with ⟨readings, ranges, read, mean, folded⟩
          rcases each part range made with ⟨reading, readPart, means⟩
          refine ⟨reading :: readings, range :: ranges, ?_, .cons means mean, folded⟩
          simp [List.mapM_cons, readPart, read]

variable {start : Range} {before : Version → Prop} {ranges : List Range}
  {readings : List Reading}
  (mean : List.Forall₂ (fun range reading => range.Means (meaning reading)) ranges readings)
include mean

theorem means_foldl_intersection (means : start.Means before) :
    (ranges.foldl Range.intersection start).Means fun version =>
      before version ∧ ∀ reading ∈ readings, meaning reading version := by
  induction mean generalizing start before with
  | nil => exact means.congr fun version _ => by simp
  | cons first _ induction =>
      refine (induction (means.intersection first)).congr fun version _ => ?_
      rw [List.forall_mem_cons, and_assoc]

theorem means_foldl_union (means : start.Means before) :
    (ranges.foldl Range.union start).Means fun version =>
      before version ∨ ∃ reading ∈ readings, meaning reading version := by
  induction mean generalizing start before with
  | nil => exact means.congr fun version _ => by simp
  | cons first _ induction =>
      refine (induction (means.union first)).congr fun version _ => ?_
      rw [List.exists_mem_cons_iff, or_assoc]

end Fold

namespace Constraint

theorem means_alternativeRange {source : String} {alternative : List Char} {range : Range}
    (found : alternativeRange source alternative = .ok range) :
    ∃ comparators, comparators? alternative = some comparators ∧
      range.Means fun version => ∀ comparator ∈ comparators, comparator.Admits version := by
  unfold alternativeRange at found
  split at found
  case h_1 => cases found
  case h_2 => cases found
  case h_3 joined =>
    cases joinOperators_eq joined
    rcases foldlM_means (fun _ _ => means_comparatorRange) found with
      ⟨comparators, ranges, read, mean, rfl⟩
    refine ⟨comparators, read, ?_⟩
    exact (means_foldl_intersection mean Range.means_full).congr fun _ _ => iff_of_eq (true_and _)

/-- A constraint accepts the releases that all comparators of one of its alternatives
admit. -/
theorem accepts_iff_admits {text : String} {constraint : Constraint}
    (parsed : parse text = .ok constraint) :
    let source := (Text.trim text).toList
    ['|', '|'].intercalate (alternatives source) = source ∧
    (∀ alternative ∈ alternatives source, ¬ ['|', '|'] <:+: alternative) ∧
    ∃ readings, (alternatives source).mapM comparators? = some readings ∧
      ∀ version : Version, version.preRelease = [] →
        (constraint.accepts version = true ↔
          ∃ comparators ∈ readings, ∀ comparator ∈ comparators, comparator.Admits version) := by
  unfold parse at parsed
  dsimp only at parsed
  split at parsed
  case isTrue => cases parsed
  case isFalse =>
    rcases map_eq_ok parsed with ⟨range, found, rfl⟩
    rcases foldlM_means (fun _ _ => means_alternativeRange) found with
      ⟨readings, ranges, read, mean, rfl⟩
    refine ⟨intercalate_alternatives _, separated_alternatives _, readings, read, ?_⟩
    intro version release
    refine ((means_foldl_union mean Range.means_empty).contains_iff version release).trans ?_
    exact iff_of_eq (false_or _)

private def twoAlternatives : Constraint where
  source := ">= 6.18,<6.20 || ^0.2.x"
  range := {
    holdsLowest := false
    cuts := [⟨⟨0, 2, 0, [], []⟩, false⟩, ⟨⟨0, 3, 0, [], []⟩, false⟩,
      ⟨⟨6, 18, 0, [], []⟩, false⟩, ⟨⟨6, 20, 0, [], []⟩, false⟩]
  }

/-- An operator stands apart from its version, and a number is left open. -/
theorem accepts_iff_admits_apart :
    parse " >= 6.18,<6.20 || ^0.2.x" = .ok twoAlternatives ∧
    ∀ version : Version, version.preRelease = [] →
      (twoAlternatives.accepts version = true ↔
        Comparator.Admits ⟨.greaterOrEqual, [6, 18]⟩ version ∧
          Comparator.Admits ⟨.less, [6, 20]⟩ version ∨
        Comparator.Admits ⟨.caret, [0, 2]⟩ version) := by
  have parsed : parse " >= 6.18,<6.20 || ^0.2.x" = .ok twoAlternatives := by decide +kernel
  rcases (accepts_iff_admits parsed).2.2 with ⟨readings, read, accepted⟩
  have expected : (alternatives ">= 6.18,<6.20 || ^0.2.x".toList).mapM comparators? =
      some [[⟨.greaterOrEqual, [6, 18]⟩, ⟨.less, [6, 20]⟩], [⟨.caret, [0, 2]⟩]] := by decide +kernel
  cases expected.symm.trans read
  refine ⟨parsed, fun version release => (accepted version release).trans ?_⟩
  simp

end Constraint

end SolutionLists.Version
