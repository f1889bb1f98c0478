import SolutionLists.Proofs.Path.Lexical
import SolutionLists.Proofs.Version.Comparator

namespace SolutionLists.Version

/-! Versions as constraints write them: numbers between dots up to those that are left open.
What is written so is read, and nothing else is. -/

/-! ## Numbers -/

/-- Digits that stand for a number with a place in a version. Zeros may stand in front. -/
structure WritesNumber (digits : List Char) (value : Nat) : Prop where
  something : digits ≠ []
  areDigits : ∀ digit ∈ digits, digit.isDigit = true
  value_eq : decimal digits = value
  fits : value ≤ largestPart

theorem part?_eq_some {digits : List Char} {value : Nat} :
    part? digits = some value ↔ WritesNumber digits value := by
  rw [part?]
  constructor
  · intro read
    split at read
    case isFalse => cases read
    case isTrue written =>
      dsimp only at read
      split at read
      case isFalse => cases read
      case isTrue fits =>
        cases read
        exact ⟨written.1, List.all_eq_true.mp written.2, rfl, fits⟩
  · intro written
    rw [if_pos ⟨written.something, List.all_eq_true.mpr written.areDigits⟩]
    have value := written.value_eq
    rw [decimal] at value
    dsimp only
    rw [value, if_pos written.fits]

theorem decimal_toDigits (value : Nat) : decimal (Nat.toDigits 10 value) = value := by
  have same := Nat.ofDigitChars_ten_toDigits (n := value)
  rwa [Nat.ofDigitChars_eq_foldl] at same

theorem decimal_zeros (zeros : Nat) (digits : List Char) :
    decimal (List.replicate zeros '0' ++ digits) = decimal digits := by
  induction zeros with
  | zero => rfl
  | succ zeros induction => exact induction

theorem decimal_lt {digits : List Char} (areDigits : ∀ digit ∈ digits, digit.isDigit = true) :
    decimal digits < 10 ^ digits.length := by
  rw [decimal_eq]
  have bound := Nat.ofDigits_lt_base_pow_length (b := 10) (l := (digits.map digitValue).reverse)
    (by decide) ?_
  · simpa using bound
  · intro value member
    rcases List.mem_map.mp (List.mem_reverse.mp member) with ⟨digit, inside, rfl⟩
    exact digitValue_lt (areDigits digit inside)

theorem writesNumber_iff {digits : List Char} {value : Nat} :
    WritesNumber digits value ↔ value ≤ largestPart ∧
      ∃ zeros, digits = List.replicate zeros '0' ++ (toString value).toList := by
  have canonical : (toString value).toList = Nat.toDigits 10 value := by
    rw [Nat.toString_eq_ofList_toDigits, String.toList_ofList]
  have areDigits : ∀ zeros, ∀ digit ∈ List.replicate zeros '0' ++ Nat.toDigits 10 value,
      digit.isDigit = true := by
    intro zeros digit member
    rcases List.mem_append.mp member with zero | other
    · rw [List.eq_of_mem_replicate zero]
      rfl
    · exact Nat.isDigit_of_mem_toDigits (by decide) (by decide) other
  rw [canonical]
  constructor
  · intro written
    have short : (Nat.toDigits 10 value).length ≤ digits.length := by
      apply (Nat.length_toDigits_le_iff (by decide) ?_).mpr
      · rw [← written.value_eq]
        exact decimal_lt written.areDigits
      · exact List.length_pos_iff.mpr written.something
    refine ⟨written.fits, digits.length - (Nat.toDigits 10 value).length, ?_⟩
    apply decimal_injective
    case leftDigits => exact List.all_eq_true.mpr written.areDigits
    case rightDigits => exact List.all_eq_true.mpr (areDigits _)
    case length =>
      rw [List.length_append, List.length_replicate]
      exact (Nat.sub_add_cancel short).symm
    case value => rw [decimal_zeros, decimal_toDigits, written.value_eq]
  · intro padded
    rcases padded with ⟨fits, zeros, rfl⟩
    refine ⟨?_, areDigits zeros, ?_, fits⟩
    · exact List.append_ne_nil_of_right_ne_nil _ Nat.toDigits_ne_nil
    · rw [decimal_zeros, decimal_toDigits]

/-! ## Versions -/

/-- A version as it may be written: perhaps a mark in front, one to three parts between dots,
of which the last ones may be left open, and anything that starts with `-` or `+`. -/
inductive WritesVersion : List Char → List Nat → Prop
  | intro {mark suffix : List Char} {numbers wildcards : List (List Char)} {given : List Nat}
      (isMark : mark = [] ∨ mark = ['v'])
      (written : List.Forall₂ WritesNumber numbers given)
      (leftOpen : ∀ part ∈ wildcards, part ∈ [['x'], ['X'], ['*']])
      (something : numbers ++ wildcards ≠ [])
      (short : (numbers ++ wildcards).length ≤ 3)
      (apart : ∀ char, suffix.head? = some char → char = '-' ∨ char = '+') :
      WritesVersion (mark ++ ['.'].intercalate (numbers ++ wildcards) ++ suffix) given

namespace Partial

def behindMark (text : List Char) : List Char :=
  match text with
  | 'v' :: rest => rest
  | _ => text

theorem isWildcard_iff {part : List Char} :
    isWildcard part = true ↔ part ∈ [['x'], ['X'], ['*']] := by
  rw [isWildcard, decide_eq_true_iff]

variable {text : String} {room : Nat} {parts : List (List Char)} {values : List Nat}

theorem readParts_open_iff :
    readParts text true room parts = .ok values ↔
      values = [] ∧ (∀ part ∈ parts, isWildcard part = true) ∧ parts.length ≤ room := by
  induction parts generalizing room with
  | nil =>
      rw [readParts, Except.ok.injEq]
      exact ⟨fun same => ⟨same.symm, nofun, Nat.zero_le room⟩, fun parts => parts.1.symm⟩
  | cons part rest induction =>
      cases room with
      | zero => simp [readParts]
      | succ room =>
          rw [readParts]
          split
          case isTrue isOpen => simp [induction, isOpen]
          case isFalse isGiven => simp [isGiven]

theorem not_isWildcard {part : List Char} {value : Nat} (written : WritesNumber part value) :
    isWildcard part = false := by
  apply Bool.eq_false_iff.mpr
  intro isOpen
  have digits := written.areDigits
  have cases := isWildcard_iff.mp isOpen
  simp only [List.mem_cons, List.not_mem_nil, or_false] at cases
  rcases cases with rfl | rfl | rfl <;> exact absurd (digits _ List.mem_cons_self) (by decide)

theorem readParts_iff :
    readParts text false room parts = .ok values ↔
      ∃ numbers wildcards, parts = numbers ++ wildcards ∧
        List.Forall₂ WritesNumber numbers values ∧
          (∀ part ∈ wildcards, isWildcard part = true) ∧ parts.length ≤ room := by
  constructor
  · intro read
    induction parts generalizing room values with
    | nil =>
        rw [readParts] at read
        cases read
        exact ⟨[], [], rfl, .nil, nofun, Nat.zero_le room⟩
    | cons part rest induction =>
        cases room with
        | zero => cases read
        | succ room =>
            rw [readParts] at read
            split at read
            case isTrue isOpen =>
              rcases readParts_open_iff.mp read with ⟨rfl, others, short⟩
              exact ⟨[], part :: rest, rfl, .nil, List.forall_mem_cons.mpr ⟨isOpen, others⟩,
                Nat.succ_le_succ short⟩
            case isFalse =>
              rw [if_neg Bool.false_ne_true] at read
              split at read
              case h_1 => cases read
              case h_2 value isNumber =>
                split at read
                case h_1 => cases read
                case h_2 others restRead =>
                  cases read
                  rcases induction restRead with ⟨numbers, wildcards, rfl, written, isOpen, short⟩
                  exact ⟨part :: numbers, wildcards, rfl, .cons (part?_eq_some.mp isNumber) written,
                    isOpen, Nat.succ_le_succ short⟩
  · intro found
    rcases found with ⟨numbers, wildcards, rfl, written, isOpen, short⟩
    induction written generalizing room with
    | nil =>
        cases wildcards with
        | nil => rw [List.append_nil, readParts]
        | cons first others =>
            cases room with
            | zero => cases short
            | succ room =>
                have parts := List.forall_mem_cons.mp isOpen
                rw [List.nil_append, readParts, if_pos parts.1]
                exact readParts_open_iff.mpr ⟨rfl, parts.2, Nat.le_of_succ_le_succ short⟩
    | cons first further induction =>
        cases room with
        | zero => cases short
        | succ room =>
            have notOpen : ¬ isWildcard _ = true := Bool.eq_false_iff.mp (not_isWildcard first)
            rw [List.cons_append, readParts, if_neg notOpen, if_neg Bool.false_ne_true,
              part?_eq_some.mpr first]
            dsimp only
            rw [induction (Nat.le_of_succ_le_succ short)]

/-- A character that a part between dots may have. -/
def IsPartChar (char : Char) : Prop :=
  char.isDigit = true ∨ char ∈ ['x', 'X', '*']

instance (char : Char) : Decidable (IsPartChar char) :=
  inferInstanceAs (Decidable (_ ∨ _))

theorem exists_writesNumber {numbers : List (List Char)} {given : List Nat}
    (written : List.Forall₂ WritesNumber numbers given) :
    ∀ part ∈ numbers, ∃ value, WritesNumber part value := by
  induction written with
  | nil => nofun
  | cons first _ induction => exact List.forall_mem_cons.mpr ⟨⟨_, first⟩, induction⟩

section Written

variable {numbers wildcards : List (List Char)} {given : List Nat}
  (written : List.Forall₂ WritesNumber numbers given)
  (leftOpen : ∀ part ∈ wildcards, part ∈ [['x'], ['X'], ['*']])
include written leftOpen

theorem isPartChar_of_written :
    ∀ part ∈ numbers ++ wildcards, part ≠ [] ∧ ∀ char ∈ part, IsPartChar char := by
  intro part member
  rcases List.mem_append.mp member with inNumbers | inWildcards
  · rcases exists_writesNumber written part inNumbers with ⟨value, number⟩
    exact ⟨number.something, fun char inside => .inl (number.areDigits char inside)⟩
  · have isOpen := leftOpen part inWildcards
    simp only [List.mem_cons, List.not_mem_nil, or_false] at isOpen
    rcases isOpen with rfl | rfl | rfl <;> simp [IsPartChar]

theorem isPartChar_of_mem_core :
    ∀ char ∈ ['.'].intercalate (numbers ++ wildcards), char = '.' ∨ IsPartChar char := by
  intro char member
  rcases Path.of_mem_intercalate member with dot | ⟨part, inside, present⟩
  · exact .inl dot
  · exact .inr ((isPartChar_of_written written leftOpen part inside).2 char present)

theorem exists_core_eq (something : numbers ++ wildcards ≠ []) : ∃ char rest,
    ['.'].intercalate (numbers ++ wildcards) = char :: rest ∧ IsPartChar char := by
  have parts := isPartChar_of_written written leftOpen
  cases split : numbers ++ wildcards with
  | nil => exact absurd split something
  | cons first others =>
      rw [split] at parts
      have isPart := parts first List.mem_cons_self
      cases chars : first with
      | nil => exact absurd chars isPart.1
      | cons char rest =>
          have isPartChar := isPart.2 char (by rw [chars]; exact List.mem_cons_self)
          cases others with
          | nil => exact ⟨char, rest, by simp, isPartChar⟩
          | cons next more =>
              exact ⟨char, rest ++ '.' :: ['.'].intercalate (next :: more),
                by simp [List.intercalate_cons_cons], isPartChar⟩

theorem splitOn_core (something : numbers ++ wildcards ≠ []) :
    (['.'].intercalate (numbers ++ wildcards)).splitOn '.' = numbers ++ wildcards := by
  apply List.splitOn_intercalate
  · intro part member dot
    have isPartChar := (isPartChar_of_written written leftOpen part member).2 '.' dot
    exact absurd isPartChar (by decide)
  · exact something

end Written

/-- Whether a character belongs to the parts of a version, not to what is apart from them. -/
def isCore (char : Char) : Bool := char ≠ '-' ∧ char ≠ '+'

theorem parse_eq_readParts (version : List Char) :
    parse version =
      match readParts (String.ofList (behindMark version)) false 3
        (((behindMark version).takeWhile isCore).splitOn '.') with
      | .error error => .error error
      | .ok values => .ok (ofNumbers values) := rfl

theorem behindMark_eq {mark rest : List Char} (isMark : mark = [] ∨ mark = ['v'])
    (plain : rest.head? ≠ some 'v') : behindMark (mark ++ rest) = rest := by
  rcases isMark with rfl | rfl
  · rw [List.nil_append, behindMark.eq_def]
    split
    · exact absurd rfl plain
    · rfl
  · rfl

theorem exists_mark (version : List Char) :
    ∃ mark, (mark = [] ∨ mark = ['v']) ∧ version = mark ++ behindMark version := by
  rw [behindMark.eq_def]
  split
  · exact ⟨['v'], .inr rfl, rfl⟩
  · exact ⟨[], .inl rfl, rfl⟩

theorem takeWhile_isCore {core suffix : List Char}
    (isPart : ∀ char ∈ core, char = '.' ∨ IsPartChar char)
    (apart : ∀ char, suffix.head? = some char → char = '-' ∨ char = '+') :
    (core ++ suffix).takeWhile isCore = core := by
  have inside : ∀ char ∈ core, isCore char = true := by
    intro char member
    have dash : ¬ IsPartChar '-' := by decide
    have plus : ¬ IsPartChar '+' := by decide
    rcases isPart char member with rfl | isPartChar
    · decide
    · exact decide_eq_true
        ⟨fun same => dash (same ▸ isPartChar), fun same => plus (same ▸ isPartChar)⟩
  rw [List.takeWhile_append_of_pos inside]
  cases suffix with
  | nil => simp
  | cons first rest => rcases apart first rfl with rfl | rfl <;> simp [isCore]

theorem exists_splitOn_written {version : List Char} {given : List Nat}
    (written : WritesVersion version given) : ∃ numbers wildcards,
      ((behindMark version).takeWhile isCore).splitOn '.' = numbers ++ wildcards ∧
        List.Forall₂ WritesNumber numbers given ∧
          (∀ part ∈ wildcards, isWildcard part = true) ∧ (numbers ++ wildcards).length ≤ 3 := by
  cases written with
  | @intro mark suffix numbers wildcards _ isMark written leftOpen something short apart =>
      rcases exists_core_eq written leftOpen something with ⟨char, rest, core, isPartChar⟩
      have plain : (['.'].intercalate (numbers ++ wildcards) ++ suffix).head? ≠ some 'v' := by
        rw [core]
        intro same
        cases same
        exact absurd isPartChar (by decide)
      refine ⟨numbers, wildcards, ?_, written,
        fun part member => isWildcard_iff.mpr (leftOpen part member), short⟩
      rw [List.append_assoc, behindMark_eq isMark plain,
        takeWhile_isCore (isPartChar_of_mem_core written leftOpen) apart,
        splitOn_core written leftOpen something]

theorem parse_iff {version : List Char} {read : Partial} :
    parse version = .ok read ↔ ∃ given, WritesVersion version given ∧ read = ofNumbers given := by
  rw [parse_eq_readParts]
  constructor
  · intro parsed
    split at parsed
    case h_1 => cases parsed
    case h_2 given partsRead =>
      cases parsed
      rcases readParts_iff.mp partsRead with ⟨numbers, wildcards, split, written, isOpen, short⟩
      rcases exists_mark version with ⟨mark, isMark, whole⟩
      have core : ['.'].intercalate (numbers ++ wildcards) =
          (behindMark version).takeWhile isCore := by
        rw [← split, List.intercalate_splitOn]
      have text : version = mark ++ ['.'].intercalate (numbers ++ wildcards) ++
          (behindMark version).dropWhile isCore := by
        rw [core, List.append_assoc, List.takeWhile_append_dropWhile]
        exact whole
      refine ⟨given, ?_, rfl⟩
      rw [text]
      refine .intro isMark written (fun part member => isWildcard_iff.mp (isOpen part member))
        ?_ (split ▸ short) ?_
      · rw [← split]
        exact List.splitOn_ne_nil _ _
      · intro char first
        have stops := List.head?_dropWhile_not isCore (behindMark version)
        rw [first] at stops
        simpa [isCore, or_iff_not_imp_left] using stops
  · intro found
    rcases found with ⟨given, written, rfl⟩
    rcases exists_splitOn_written written with
      ⟨numbers, wildcards, split, numbersWritten, isOpen, short⟩
    have read : readParts (String.ofList (behindMark version)) false 3 (numbers ++ wildcards) =
        .ok given :=
      readParts_iff.mpr ⟨numbers, wildcards, rfl, numbersWritten, isOpen, short⟩
    rw [split, read]

end Partial

theorem fit_of_written {numbers : List (List Char)} {given : List Nat}
    (written : List.Forall₂ WritesNumber numbers given) : ∀ part ∈ given, part ≤ largestPart := by
  induction written with
  | nil => nofun
  | cons first _ induction => exact List.forall_mem_cons.mpr ⟨first.fits, induction⟩

theorem WritesVersion.short_fit {text : List Char} {given : List Nat}
    (written : WritesVersion text given) :
    given.length ≤ 3 ∧ ∀ part ∈ given, part ≤ largestPart := by
  cases written with
  | intro _ numbers _ _ short _ =>
      rw [List.length_append, numbers.length_eq] at short
      exact ⟨le_trans (Nat.le_add_right _ _) short, fit_of_written numbers⟩

theorem WritesVersion.exists_eq {text : List Char} {given : List Nat}
    (written : WritesVersion text given) :
    ∃ char rest, text = char :: rest ∧ isOperatorChar char = false := by
  cases written with
  | @intro mark suffix numbers wildcards _ isMark written leftOpen something short apart =>
      rcases Partial.exists_core_eq written leftOpen something with ⟨char, rest, core, isPart⟩
      rw [core]
      rcases isMark with rfl | rfl
      · refine ⟨char, rest ++ suffix, rfl, Bool.eq_false_iff.mpr fun isOperator => ?_⟩
        simp only [isOperatorChar, List.mem_cons, List.not_mem_nil, or_false,
          decide_eq_true_eq] at isOperator
        rcases isOperator with rfl | rfl | rfl | rfl | rfl | rfl <;> exact absurd isPart (by decide)
      · exact ⟨'v', char :: rest ++ suffix, rfl, by decide⟩

end SolutionLists.Version
