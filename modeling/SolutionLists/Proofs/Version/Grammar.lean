import SolutionLists.Proofs.Version.Constraint

namespace SolutionLists.Version

/-! The texts that are read as constraints. A constraint is written as alternatives between
bars, an alternative as comparators side by side, a comparator as an operator with a version
behind it. What is written so is read, unless the set would need a number that has no place
in a version, and nothing else is read. The pieces of a text are said here by what stands in
them and what ends them, and turn out to be those that the reader takes. -/

/-! ## Comparators -/

/-- The number of a comparator that has to be followed by another one: the set is bounded by
that. Zeros that `^` is given are followed by one anyway, and only a patch is named here. -/
def Operator.followed? (operator : Operator) (given : List Nat) : Option Nat :=
  match operator with
  | .equal | .notEqual | .greater | .lessOrEqual => given.getLast?
  | .tilde => (given.take 2).getLast?
  | .caret => (given.find? (· ≠ 0)).or given[2]?
  | .greaterOrEqual | .less => none

def Operator.writings : Operator → List (List Char)
  | .equal => [[], ['='], ['=', '=']]
  | .notEqual => [['!', '=']]
  | .greater => [['>']]
  | .greaterOrEqual => [['>', '='], ['=', '>']]
  | .less => [['<']]
  | .lessOrEqual => [['<', '='], ['=', '<']]
  | .tilde => [['~'], ['~', '>']]
  | .caret => [['^']]

/-- A comparator as it is written: an operator, then a version, in which the number that has to
be followed by another one is not the largest. -/
inductive WritesComparator : List Char → Prop
  | intro {spelling version : List Char} {operator : Operator} {given : List Nat}
      (spelled : spelling ∈ operator.writings)
      (written : WritesVersion version given)
      (followed : operator.followed? given ≠ some largestPart) :
      WritesComparator (spelling ++ version)

theorem exists_next {part : Nat} {make : Nat → Option Version} :
    (∃ ceiling, (next part).map make = .ok ceiling) ↔ part < largestPart := by
  rw [next]
  by_cases room : part < largestPart
  · rw [if_pos room]
    exact iff_of_true ⟨_, rfl⟩ room
  · rw [if_neg room]
    refine iff_of_false ?_ room
    intro found
    rcases found with ⟨ceiling, same⟩
    cases same

/-- A number with a place in a version is followed by another one unless it is the largest. -/
theorem lt_largestPart {part : Nat} (fits : part ≤ largestPart) :
    part < largestPart ↔ some part ≠ some largestPart := by
  rw [Nat.lt_iff_le_and_ne, and_iff_right fits, ne_eq, ne_eq, Option.some.injEq]

theorem exists_map {ε α β : Type} {result : Except ε α} {change : α → β} :
    (∃ value, result.map change = .ok value) ↔ ∃ inner, result = .ok inner := by
  cases result with
  | error error => exact iff_of_false nofun nofun
  | ok inner => exact iff_of_true ⟨_, rfl⟩ ⟨_, rfl⟩

section Given

variable {given : List Nat} (short : given.length ≤ 3) (fit : ∀ part ∈ given, part ≤ largestPart)
include short fit

theorem Partial.exists_ceiling :
    (∃ ceiling, (ofNumbers given).ceiling = .ok ceiling) ↔ given.getLast? ≠ some largestPart := by
  rcases numbers_cases short with
    rfl | ⟨major, rfl⟩ | ⟨major, minor, rfl⟩ | ⟨major, minor, patch, rfl⟩
  · exact iff_of_true ⟨none, rfl⟩ nofun
  · exact exists_next.trans (lt_largestPart (fit major (by simp)))
  · exact exists_next.trans (lt_largestPart (fit minor (by simp)))
  · exact exists_next.trans (lt_largestPart (fit patch (by simp)))

theorem followed?_caret :
    (given.take (Comparator.fixed given)).getLast? ≠ some largestPart ↔
      Operator.caret.followed? given ≠ some largestPart := by
  have notZero : 0 ≠ largestPart := by decide
  rcases Partial.numbers_cases short with
    rfl | ⟨major, rfl⟩ | ⟨major, minor, rfl⟩ | ⟨major, minor, patch, rfl⟩
  · simp [Operator.followed?]
  · by_cases first : major = 0 <;> simp [Operator.followed?, Comparator.fixed, first, notZero]
  · by_cases first : major = 0 <;> by_cases second : minor = 0 <;>
      simp [Operator.followed?, Comparator.fixed, first, second, notZero]
  · by_cases first : major = 0 <;> by_cases second : minor = 0 <;> by_cases third : patch = 0 <;>
      simp [Operator.followed?, Comparator.fixed, first, second, third, notZero]

theorem Operator.exists_range (operator : Operator) :
    (∃ range, operator.range (.ofNumbers given) = .ok range) ↔
      operator.followed? given ≠ some largestPart := by
  have shortTake : ∀ count, (given.take count).length ≤ 3 :=
    fun count => le_trans (List.length_take_le' _ _) short
  have fitTake : ∀ count, ∀ part ∈ given.take count, part ≤ largestPart :=
    fun count part member => fit part (List.mem_of_mem_take member)
  cases operator with
  | equal | notEqual | greater | lessOrEqual =>
      exact exists_map.trans (Partial.exists_ceiling short fit)
  | greaterOrEqual | less => exact iff_of_true ⟨_, rfl⟩ nofun
  | tilde =>
      refine exists_map.trans ?_
      rw [Partial.patchCeiling_ofNumbers short]
      exact Partial.exists_ceiling (shortTake 2) (fitTake 2)
  | caret =>
      refine exists_map.trans ?_
      rw [Partial.caretCeiling_ofNumbers short, Partial.exists_ceiling (shortTake _) (fitTake _)]
      exact followed?_caret short fit

end Given

theorem lookup_spellings :
    ∀ pair ∈ Operator.spellings, Operator.spellings.lookup pair.1 = some pair.2 := by
  decide

theorem all_spellings : ∀ pair ∈ Operator.spellings, pair.1.all isOperatorChar = true := by
  decide

theorem mem_writings_iff {spelling : List Char} {operator : Operator} :
    spelling ∈ operator.writings ↔ (spelling, operator) ∈ Operator.spellings := by
  cases operator <;> simp [Operator.writings, Operator.spellings]

theorem mem_writings {spelling : List Char} {operator : Operator}
    (spelled : Operator.spellings.lookup spelling = some operator) :
    spelling ∈ operator.writings := by
  rcases List.lookup_eq_some_iff.mp spelled with ⟨front, back, whole, -⟩
  rw [mem_writings_iff, whole]
  exact List.mem_append_right _ List.mem_cons_self

section Spelled

variable {spelling version : List Char} {operator : Operator} {given : List Nat}
  (spelled : spelling ∈ operator.writings) (written : WritesVersion version given)
include spelled written

theorem takeWhile_isOperatorChar : (spelling ++ version).takeWhile isOperatorChar = spelling := by
  rcases written.exists_eq with ⟨char, rest, rfl, isVersion⟩
  have operators := all_spellings _ (mem_writings_iff.mp spelled)
  rw [List.takeWhile_append_of_pos (List.all_eq_true.mp operators),
    List.takeWhile_cons_of_neg (Bool.eq_false_iff.mp isVersion), List.append_nil]

theorem dropWhile_isOperatorChar : (spelling ++ version).dropWhile isOperatorChar = version := by
  rcases written.exists_eq with ⟨char, rest, rfl, isVersion⟩
  have operators := all_spellings _ (mem_writings_iff.mp spelled)
  rw [List.dropWhile_append_of_pos (List.all_eq_true.mp operators),
    List.dropWhile_cons_of_neg (Bool.eq_false_iff.mp isVersion)]

theorem comparatorRange_eq :
    comparatorRange (spelling ++ version) = operator.range (.ofNumbers given) := by
  have parsed : Partial.parse version = .ok (.ofNumbers given) :=
    Partial.parse_iff.mpr ⟨given, written, rfl⟩
  rcases written.exists_eq with ⟨char, rest, chars, -⟩
  rw [comparatorRange, takeWhile_isOperatorChar spelled written,
    dropWhile_isOperatorChar spelled written]
  subst chars
  dsimp only
  rw [parsed]
  dsimp only
  rw [lookup_spellings _ (mem_writings_iff.mp spelled)]

end Spelled

theorem exists_comparatorRange {comparator : List Char} :
    (∃ range, comparatorRange comparator = .ok range) ↔ WritesComparator comparator := by
  constructor
  · intro found
    rcases found with ⟨range, found⟩
    rw [comparatorRange] at found
    split at found
    case h_1 => cases found
    case h_2 =>
      split at found
      case h_1 => cases found
      case h_2 version parsed =>
        split at found
        case h_1 => cases found
        case h_2 operator spelled =>
          rcases Partial.parse_iff.mp parsed with ⟨given, written, rfl⟩
          have limits := written.short_fit
          rw [← List.takeWhile_append_dropWhile (p := isOperatorChar) (l := comparator)]
          exact .intro (mem_writings spelled) written
            ((Operator.exists_range limits.1 limits.2 operator).mp ⟨range, found⟩)
  · intro writes
    cases writes with
    | intro spelled written followed =>
        have limits := written.short_fit
        rw [comparatorRange_eq spelled written]
        exact (Operator.exists_range limits.1 limits.2 _).mpr followed

/-! ## Comparators side by side -/

/-- A character that may stand between comparators. -/
def IsSeparator (char : Char) : Prop :=
  char = ',' ∨ Text.isBlank char = true

/-- Tokens with commas and white space around them. A token goes as far as the next of these. -/
inductive CutIntoTokens : List Char → List (List Char) → Prop
  | nil : CutIntoTokens [] []
  | separator {char : Char} {rest : List Char} {others : List (List Char)}
      (separates : IsSeparator char) (further : CutIntoTokens rest others) :
      CutIntoTokens (char :: rest) others
  | token {part rest : List Char} {others : List (List Char)} (something : part ≠ [])
      (plain : ∀ char ∈ part, ¬ IsSeparator char) (ends : ∀ char ∈ rest.head?, IsSeparator char)
      (further : CutIntoTokens rest others) : CutIntoTokens (part ++ rest) (part :: others)

theorem separates_iff {char : Char} :
    (char == ',' || Text.isBlank char) = true ↔ IsSeparator char := by
  rw [IsSeparator, Bool.or_eq_true, beq_iff_eq]

theorem tokens_separator {char : Char} (separates : IsSeparator char) (rest : List Char) :
    tokens (char :: rest) = tokens rest := by
  have nothing : ∀ other ∈ ([] : List Char), (other == ',' || Text.isBlank other) = false := nofun
  have split := List.splitOnP_append_cons_of_forall_mem nothing char
    (separates_iff.mpr separates) rest
  rw [List.nil_append] at split
  rw [tokens, split]
  rfl

theorem tokens_token {part rest : List Char} (something : part ≠ [])
    (plain : ∀ char ∈ part, ¬ IsSeparator char) (ends : ∀ char ∈ rest.head?, IsSeparator char) :
    tokens (part ++ rest) = part :: tokens rest := by
  have noSeparator : ∀ char ∈ part, (char == ',' || Text.isBlank char) = false :=
    fun char member => Bool.eq_false_iff.mpr fun found => plain char member (separates_iff.mp found)
  cases rest with
  | nil => simp [tokens, List.splitOnP_eq_singleton noSeparator, something]
  | cons char rest =>
      have separates := ends char rfl
      have split := List.splitOnP_append_cons_of_forall_mem noSeparator char
        (separates_iff.mpr separates) rest
      rw [tokens_separator separates, tokens, split, List.filter_cons_of_pos (by simpa)]
      rfl

/-- A character in front belongs to the token that the text begins with, or is one by itself. -/
theorem exists_cutIntoTokens (chars : List Char) : ∃ parts, CutIntoTokens chars parts := by
  induction chars with
  | nil => exact ⟨[], .nil⟩
  | cons char rest induction =>
      rcases induction with ⟨parts, further⟩
      by_cases separates : IsSeparator char
      · exact ⟨parts, .separator separates further⟩
      · have alone : ∀ other ∈ [char], ¬ IsSeparator other :=
          List.forall_mem_singleton.mpr separates
        cases further with
        | nil => exact ⟨[[char]], .token (List.cons_ne_nil char []) alone nofun .nil⟩
        | separator next further =>
            refine ⟨[char] :: parts, .token (List.cons_ne_nil char []) alone ?_
              (.separator next further)⟩
            rintro _ ⟨⟩
            exact next
        | token _ plain ends further =>
            exact ⟨_, .token (List.cons_ne_nil char _) (List.forall_mem_cons.mpr ⟨separates, plain⟩)
              ends further⟩

theorem tokens_iff {chars : List Char} {parts : List (List Char)} :
    tokens chars = parts ↔ CutIntoTokens chars parts := by
  have cut : ∀ {parts}, CutIntoTokens chars parts → tokens chars = parts := by
    intro parts cut
    induction cut with
    | nil => rfl
    | separator separates _ induction => rw [tokens_separator separates, induction]
    | token something plain ends _ induction => rw [tokens_token something plain ends, induction]
  constructor
  · rintro rfl
    rcases exists_cutIntoTokens chars with ⟨parts, found⟩
    rwa [cut found]
  · exact cut

/-- A token of operator characters alone: the version of the operator is still to come. -/
def IsDetached (token : List Char) : Prop :=
  ∀ char ∈ token, char ∈ ['<', '>', '=', '!', '~', '^']

theorem isDetached_iff {token : List Char} :
    token.all isOperatorChar = true ↔ IsDetached token := by
  simp [IsDetached, isOperatorChar]

/-- Tokens that stand for comparators. One made of operator characters alone belongs to the token
behind it, which is not made of them alone. -/
inductive Joins : List (List Char) → List (List Char) → Prop
  | nil : Joins [] []
  | alone {token : List Char} {rest comparators : List (List Char)}
      (isVersion : ¬ IsDetached token) (further : Joins rest comparators) :
      Joins (token :: rest) (token :: comparators)
  | joined {operator token : List Char} {rest comparators : List (List Char)}
      (isOperator : IsDetached operator) (isVersion : ¬ IsDetached token)
      (further : Joins rest comparators) :
      Joins (operator :: token :: rest) ((operator ++ token) :: comparators)

theorem joins_of_joinOperators {tokens comparators : List (List Char)} :
    (joinOperators none tokens = .ok comparators → Joins tokens comparators) ∧
      ∀ operator : List Char, IsDetached operator →
        joinOperators (some operator) tokens = .ok comparators →
          Joins (operator :: tokens) comparators := by
  induction tokens generalizing comparators with
  | nil =>
      constructor
      · intro joined
        cases joined
        exact .nil
      · exact nofun
  | cons token rest induction =>
      constructor
      · intro joined
        rw [joinOperators] at joined
        split at joined
        case isTrue isOperator => exact induction.2 token (isDetached_iff.mp isOperator) joined
        case isFalse isVersion =>
          split at joined
          case h_1 => cases joined
          case h_2 others further =>
            cases joined
            exact .alone (isVersion ∘ isDetached_iff.mpr) (induction.1 further)
      · intro operator isOperator joined
        rw [joinOperators] at joined
        split at joined
        case isTrue => cases joined
        case isFalse isVersion =>
          split at joined
          case h_1 => cases joined
          case h_2 others further =>
            cases joined
            exact .joined isOperator (isVersion ∘ isDetached_iff.mpr) (induction.1 further)

theorem joinOperators_iff {tokens comparators : List (List Char)} :
    joinOperators none tokens = .ok comparators ↔ Joins tokens comparators := by
  constructor
  · exact joins_of_joinOperators.1
  · intro joins
    induction joins with
    | nil => rfl
    | alone isVersion _ induction =>
        rw [joinOperators, if_neg (isVersion ∘ isDetached_iff.mp), induction]
        rfl
    | joined isOperator isVersion _ induction =>
        rw [joinOperators, if_pos (isDetached_iff.mpr isOperator), joinOperators,
          if_neg (isVersion ∘ isDetached_iff.mp), induction]
        rfl

/-! ## Sets of versions that exist -/

/-- Whether all numbers that a set is bounded by have a place in a version. -/
def Range.Fits (range : Range) : Prop :=
  ∀ cut ∈ range.cuts, ∀ part ∈ cut.version.numbers, part ≤ largestPart

namespace Range

theorem mem_keep {cut other : Cut} {before after : Bool} {rest : List Cut}
    (member : other ∈ sweep.keep cut before after rest) : other = cut ∨ other ∈ rest := by
  rw [sweep.keep] at member
  split at member
  · exact .inr member
  · exact List.mem_cons.mp member

theorem mem_sweep {operation : Bool → Bool → Bool} {left right : Bool} {lefts rights : List Cut}
    {cut : Cut} (member : cut ∈ sweep operation left right lefts rights) :
    cut ∈ lefts ∨ cut ∈ rights := by
  induction left, right, lefts, rights using sweep.induct with
  | case1 left right =>
      rw [sweep] at member
      cases member
  | case2 left right first rest induction =>
      rw [sweep] at member
      rcases mem_keep member with rfl | later
      · exact .inl List.mem_cons_self
      · exact (induction later).imp_left (List.mem_cons_of_mem first)
  | case3 left right second rest induction =>
      rw [sweep] at member
      rcases mem_keep member with rfl | later
      · exact .inr List.mem_cons_self
      · exact (induction later).imp_right (List.mem_cons_of_mem second)
  | case4 left right first firsts second seconds before induction =>
      rw [sweep, before] at member
      rcases mem_keep member with rfl | later
      · exact .inl List.mem_cons_self
      · exact (induction later).imp_left (List.mem_cons_of_mem first)
  | case5 left right first firsts second seconds behind induction =>
      rw [sweep, behind] at member
      rcases mem_keep member with rfl | later
      · exact .inr List.mem_cons_self
      · exact (induction later).imp_right (List.mem_cons_of_mem second)
  | case6 left right first firsts second seconds same induction =>
      rw [sweep, same] at member
      rcases mem_keep member with rfl | later
      · exact .inl List.mem_cons_self
      · exact (induction later).imp (List.mem_cons_of_mem first) (List.mem_cons_of_mem second)

theorem Fits.combine {left right : Range} (fits : left.Fits) (others : right.Fits)
    (operation : Bool → Bool → Bool) : (combine operation left right).Fits := by
  intro cut member
  rcases mem_sweep member with inLeft | inRight
  · exact fits cut inLeft
  · exact others cut inRight

end Range

section Bounds

variable {lower upper : Version} (lowerFits : ∀ part ∈ lower.numbers, part ≤ largestPart)
  (upperFits : ∀ part ∈ upper.numbers, part ≤ largestPart)

include lowerFits in
theorem Range.fits_atLeast : (atLeast lower).Fits :=
  List.forall_mem_singleton.mpr lowerFits

include upperFits in
theorem Range.fits_below : (below upper).Fits :=
  List.forall_mem_singleton.mpr upperFits

include lowerFits upperFits in
theorem Range.fits_between : (between lower upper).Fits :=
  List.forall_mem_cons.mpr ⟨lowerFits, List.forall_mem_singleton.mpr upperFits⟩

theorem Range.fits_of_no_cuts (holdsLowest : Bool) : Fits ⟨holdsLowest, []⟩ := nofun

end Bounds

section Fits

variable {given : List Nat} (short : given.length ≤ 3) (fit : ∀ part ∈ given, part ≤ largestPart)
include short fit

theorem Partial.fit_floor : ∀ part ∈ (ofNumbers given).floor.numbers, part ≤ largestPart := by
  rcases numbers_cases short with
    rfl | ⟨major, rfl⟩ | ⟨major, minor, rfl⟩ | ⟨major, minor, patch, rfl⟩
  · simp [ofNumbers, floor, numbers]
  all_goals simpa [ofNumbers, floor, numbers] using fit

theorem Partial.fit_ceiling {upper : Version}
    (found : (ofNumbers given).ceiling = .ok (some upper)) :
    ∀ part ∈ upper.numbers, part ≤ largestPart := by
  rcases numbers_cases short with
    rfl | ⟨major, rfl⟩ | ⟨major, minor, rfl⟩ | ⟨major, minor, patch, rfl⟩
  · cases found
  all_goals
    have room := exists_next.mp ⟨_, found⟩
    cases map_next_eq_ok found
    simp only [List.forall_mem_cons] at fit
    simp only [numbers, List.forall_mem_cons]
  · exact ⟨room, Nat.zero_le _, Nat.zero_le _, List.forall_mem_nil _⟩
  · exact ⟨fit.1, room, Nat.zero_le _, List.forall_mem_nil _⟩
  · exact ⟨fit.1, fit.2.1, room, List.forall_mem_nil _⟩

theorem Partial.fits_upTo {count : Nat} {ceiling : Option Version}
    (found : (ofNumbers (given.take count)).ceiling = .ok ceiling) :
    ((ofNumbers given).upTo ceiling).Fits := by
  have shortTake : (given.take count).length ≤ 3 := le_trans (List.length_take_le' _ _) short
  have fitTake : ∀ part ∈ given.take count, part ≤ largestPart :=
    fun part member => fit part (List.mem_of_mem_take member)
  cases ceiling with
  | none => exact Range.fits_of_no_cuts true
  | some upper =>
      exact Range.fits_between (fit_floor short fit) (fit_ceiling shortTake fitTake found)

theorem Operator.fits_range {operator : Operator} {range : Range}
    (found : operator.range (.ofNumbers given) = .ok range) : range.Fits := by
  have whole : given.take 3 = given := List.take_of_length_le short
  have floorFits := Partial.fit_floor short fit
  cases operator with
  | equal | notEqual =>
      rcases map_eq_ok found with ⟨ceiling, bounded, rfl⟩
      rw [← whole] at bounded
      exact Partial.fits_upTo short fit bounded
  | greater =>
      rcases map_eq_ok found with ⟨ceiling, bounded, rfl⟩
      cases ceiling with
      | none => exact Range.fits_of_no_cuts false
      | some upper => exact Range.fits_atLeast (Partial.fit_ceiling short fit bounded)
  | lessOrEqual =>
      rcases map_eq_ok found with ⟨ceiling, bounded, rfl⟩
      cases ceiling with
      | none => exact Range.fits_of_no_cuts true
      | some upper => exact Range.fits_below (Partial.fit_ceiling short fit bounded)
  | greaterOrEqual =>
      cases found
      exact Range.fits_atLeast floorFits
  | less =>
      cases found
      exact Range.fits_below floorFits
  | tilde =>
      rcases map_eq_ok found with ⟨ceiling, bounded, rfl⟩
      rw [Partial.patchCeiling_ofNumbers short] at bounded
      exact Partial.fits_upTo short fit bounded
  | caret =>
      rcases map_eq_ok found with ⟨ceiling, bounded, rfl⟩
      rw [Partial.caretCeiling_ofNumbers short] at bounded
      exact Partial.fits_upTo short fit bounded

end Fits

theorem fits_comparatorRange {comparator : List Char} {range : Range}
    (found : comparatorRange comparator = .ok range) : range.Fits := by
  cases exists_comparatorRange.mp ⟨range, found⟩ with
  | intro spelled written followed =>
      rw [comparatorRange_eq spelled written] at found
      exact Operator.fits_range written.short_fit.1 written.short_fit.2 found

theorem fits_foldlM {make : List Char → Except ConstraintError Range}
    {operation : Bool → Bool → Bool} {parts : List (List Char)} {start result : Range}
    (each : ∀ part range, make part = .ok range → range.Fits) (fits : start.Fits)
    (found : parts.foldlM (fun range part =>
      (make part).map (Range.combine operation range)) start = .ok result) : result.Fits := by
  induction parts generalizing start with
  | nil =>
      cases found
      exact fits
  | cons part rest induction =>
      rw [List.foldlM_cons] at found
      cases made : make part with
      | error error =>
          rw [made] at found
          cases found
      | ok range =>
          rw [made] at found
          exact induction (fits.combine (each part range made) operation) found

/-! ## Constraints -/

/-- An alternative as it is written: one comparator at least. -/
def WritesAlternative (alternative : List Char) : Prop :=
  ∃ parts comparators, CutIntoTokens alternative parts ∧ Joins parts comparators ∧
    comparators ≠ [] ∧ ∀ comparator ∈ comparators, WritesComparator comparator

/-- Pieces with two bars between each and the next. A piece ends where two bars stand side by
side for the first time, also where a third bar follows. -/
inductive CutAtBars : List Char → List (List Char) → Prop
  | last {piece : List Char} (single : ¬ ['|', '|'] <:+: piece) : CutAtBars piece [piece]
  | bars {piece rest : List Char} {others : List (List Char)}
      (first : ¬ ['|', '|'] <:+: piece ++ ['|']) (further : CutAtBars rest others) :
      CutAtBars (piece ++ '|' :: '|' :: rest) (piece :: others)

theorem not_bars {head : Char} {tail rest : List Char}
    (first : ¬ ['|', '|'] <:+: head :: tail ++ ['|']) :
    ∀ more, head = '|' → tail ++ '|' :: '|' :: rest ≠ '|' :: more := by
  rintro more rfl starts
  cases tail with
  | nil => exact first ⟨[], [], rfl⟩
  | cons next tail =>
      cases (List.cons.inj starts).1
      exact first ⟨[], tail ++ ['|'], rfl⟩

theorem alternatives_bars {piece rest : List Char} (first : ¬ ['|', '|'] <:+: piece ++ ['|']) :
    alternatives (piece ++ '|' :: '|' :: rest) = piece :: alternatives rest := by
  induction piece with
  | nil => rw [List.nil_append, alternatives]
  | cons head tail induction =>
      have further := induction fun inside => first (List.infix_cons inside)
      rw [List.cons_append, alternatives, further]
      exact not_bars first

theorem cutAtBars (chars : List Char) : CutAtBars chars (alternatives chars) := by
  fun_induction alternatives chars with
  | case1 rest induction =>
      have none : ¬ ['|', '|'] <:+: [] ++ ['|'] := by decide
      exact .bars none induction
  | case2 => exact .last (by decide)
  | case3 head rest _ nothing induction => exact absurd nothing (alternatives_ne_nil rest)
  | case4 head rest single first others more induction =>
      -- Two bars that begin with the head would be the first ones.
      have apart : ∀ text, text <+: rest → ¬ ['|', '|'] <+: head :: text := by
        intro text inside starts
        rcases List.cons_prefix_cons.mp starts with ⟨rfl, next⟩
        rcases next.trans inside with ⟨tail, rfl⟩
        exact single tail rfl rfl
      rw [more] at induction
      cases induction with
      | last whole =>
          refine .last ?_
          rw [List.infix_cons_iff, not_or]
          exact ⟨apart _ (List.prefix_refl _), whole⟩
      | @bars _ rest _ none further =>
          have inside : ¬ ['|', '|'] <:+: head :: first ++ ['|'] := by
            rw [List.cons_append, List.infix_cons_iff, not_or]
            exact ⟨apart _ ⟨'|' :: rest, by simp⟩, none⟩
          exact .bars inside further

theorem alternatives_iff {chars : List Char} {pieces : List (List Char)} :
    alternatives chars = pieces ↔ CutAtBars chars pieces := by
  have cut : ∀ {pieces}, CutAtBars chars pieces → alternatives chars = pieces := by
    intro pieces cut
    induction cut with
    | last single => exact alternatives_of_single single
    | bars first _ induction => rw [alternatives_bars first, induction]
  constructor
  · rintro rfl
    exact cutAtBars chars
  · exact cut

/-- A constraint as it is written: one alternative at least, and no empty one. -/
def WritesConstraint (text : String) : Prop :=
  Text.trim text ≠ "" ∧ ∃ pieces, CutAtBars (Text.trim text).toList pieces ∧
    ∀ piece ∈ pieces, WritesAlternative piece

theorem exists_foldlM {make : List Char → Except ConstraintError Range}
    {combine : Range → Range → Range} {parts : List (List Char)} {start : Range} :
    (∃ result, parts.foldlM (fun range part => (make part).map (combine range)) start =
      .ok result) ↔ ∀ part ∈ parts, ∃ range, make part = .ok range := by
  induction parts generalizing start with
  | nil => exact iff_of_true ⟨start, rfl⟩ nofun
  | cons part rest induction =>
      rw [List.foldlM_cons, List.forall_mem_cons]
      cases made : make part with
      | error error => exact iff_of_false nofun (fun parts => nomatch parts.1)
      | ok range => exact induction.trans (and_iff_right ⟨range, rfl⟩).symm

namespace Constraint

theorem exists_alternativeRange {source : String} {alternative : List Char} :
    (∃ range, alternativeRange source alternative = .ok range) ↔
      WritesAlternative alternative := by
  rw [WritesAlternative]
  simp only [← exists_comparatorRange, ← joinOperators_iff, ← tokens_iff, exists_and_left,
    exists_eq_left']
  rw [alternativeRange.eq_def]
  cases joined : joinOperators none (tokens alternative) with
  | error error => exact iff_of_false nofun nofun
  | ok comparators =>
      cases comparators with
      | nil => exact iff_of_false nofun (by simp)
      | cons first rest =>
          refine exists_foldlM.trans ?_
          simp

theorem exists_parse {text : String} :
    (∃ constraint, parse text = .ok constraint) ↔ WritesConstraint text := by
  rw [parse, WritesConstraint]
  by_cases nothing : Text.trim text = ""
  · rw [if_pos nothing]
    exact iff_of_false nofun (fun parts => parts.1 nothing)
  · rw [if_neg nothing, exists_map, exists_foldlM]
    simp only [exists_alternativeRange, ← alternatives_iff, exists_eq_left', ne_eq, nothing,
      not_false_eq_true, true_and]

theorem fits_alternativeRange {source : String} {alternative : List Char} {range : Range}
    (found : alternativeRange source alternative = .ok range) : range.Fits := by
  rw [alternativeRange.eq_def] at found
  split at found
  case h_1 => cases found
  case h_2 => cases found
  case h_3 => exact fits_foldlM (fun _ _ => fits_comparatorRange) (Range.fits_of_no_cuts _) found

theorem fits_parse {text : String} {constraint : Constraint}
    (parsed : parse text = .ok constraint) : constraint.range.Fits := by
  rw [parse] at parsed
  split at parsed
  case isTrue => cases parsed
  case isFalse =>
    rcases map_eq_ok parsed with ⟨range, found, rfl⟩
    exact fits_foldlM (fun _ _ => fits_alternativeRange) (Range.fits_of_no_cuts _) found

/-- A text is read where it is written as a constraint is, and no set that is read is bounded
by a number without a place in a version. -/
theorem read_where_written (text : String) :
    ((∃ constraint, parse text = .ok constraint) ↔ WritesConstraint text) ∧
      ∀ constraint, parse text = .ok constraint → constraint.range.Fits :=
  ⟨exists_parse, fun _ => fits_parse⟩

end Constraint

end SolutionLists.Version
