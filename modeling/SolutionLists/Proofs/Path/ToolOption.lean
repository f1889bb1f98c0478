import SolutionLists.Proofs.Path.Behind

namespace SolutionLists.Path

/-! Paths in the options of tools. What an option says about its paths is not known, so it is
searched for `./` and `../`, and what stands behind the first of them is hung on the root of
the solution. Whether something stands in front, such as the path of a directory that is
anchored already, is not looked at; nor are the lines behind. -/

/-- A place in an option where `./` or `../` stands: the text in front of it, the path from
there to the end of its line, and the lines behind. -/
structure PathIn (option before path after : String) : Prop where
  whole : option = before ++ path ++ after
  relative : startsRelative path.toList = true
  inLine : '\n' ∉ path.toList
  ends : after = "" ∨ ∃ lines, after = "\n" ++ lines

/-- The place that comes first in an option. -/
structure FirstPathIn (option before path after : String) : Prop
    extends PathIn option before path after where
  first : ∀ ⦃front inside behind⦄, PathIn option front inside behind →
    before.length ≤ front.length

/-! ## Where relative paths start -/

theorem startsRelative_iff {chars : List Char} :
    startsRelative chars = true ↔
      (∃ rest, chars = '.' :: '/' :: rest) ∨ ∃ rest, chars = '.' :: '.' :: '/' :: rest := by
  rw [startsRelative, Bool.or_eq_true, List.isPrefixOf_iff_prefix, List.isPrefixOf_iff_prefix]
  exact or_congr (exists_congr fun _ => eq_comm) (exists_congr fun _ => eq_comm)

theorem head?_of_startsRelative {chars : List Char} (relative : startsRelative chars = true) :
    chars.head? = some '.' := by
  rcases startsRelative_iff.mp relative with ⟨rest, rfl⟩ | ⟨rest, rfl⟩ <;> rfl

theorem isAnchored_of_startsRelative {path : String}
    (relative : startsRelative path.toList = true) :
    isAnchored (forwardSlashes path) = false := by
  have chars : (forwardSlashes path).toList = path.toList.map forwardSlash := by
    rw [forwardSlashes, String.toList_ofList]
  rw [isAnchored, isReference, Text.startsWith, isAbsolute, chars, Bool.or_eq_false_iff]
  rcases startsRelative_iff.mp relative with ⟨rest, written⟩ | ⟨rest, written⟩ <;>
    rw [written] <;> exact ⟨rfl, by cases rest <;> rfl⟩

theorem exists_anchor_of_startsRelative (base : String) {path : String}
    (relative : startsRelative path.toList = true) :
    ∃ below, anchor base path = solutionRoot ++ below := by
  rw [anchor_of_free (isAnchored_of_startsRelative relative)]
  split
  case isTrue => exact ⟨"", String.append_empty.symm⟩
  case isFalse => exact ⟨_, String.append_assoc⟩

/-! ## The search -/

theorem splitAtRelative_append {before rest : List Char} (relative : startsRelative rest = true) :
    ∃ front behind, splitAtRelative (before ++ rest) = some (front, behind) ∧
      front.length ≤ before.length := by
  induction before with
  | nil =>
      cases rest with
      | nil => cases relative
      | cons head tail => exact ⟨[], head :: tail, if_pos relative, Nat.le_refl _⟩
  | cons char others induction =>
      rw [List.cons_append, splitAtRelative]
      split
      case isTrue => exact ⟨[], _, rfl, Nat.zero_le _⟩
      case isFalse =>
        rcases induction with ⟨front, behind, found, shorter⟩
        rw [found]
        exact ⟨char :: front, behind, rfl, Nat.succ_le_succ shorter⟩

theorem splitAtRelative_eq_some {chars before rest : List Char}
    (found : splitAtRelative chars = some (before, rest)) :
    chars = before ++ rest ∧ startsRelative rest = true := by
  induction chars generalizing before with
  | nil => cases found
  | cons head tail induction =>
      rw [splitAtRelative] at found
      split at found
      case isTrue relative =>
        cases found
        exact ⟨rfl, relative⟩
      case isFalse =>
        rcases Option.map_eq_some_iff.mp found with ⟨⟨front, behind⟩, later, same⟩
        cases same
        rcases induction later with ⟨whole, relative⟩
        exact ⟨congrArg (head :: ·) whole, relative⟩

/-! ## What is rewritten -/

variable {option before path after : String}

namespace PathIn

theorem splitAtRelative (place : PathIn option before path after) :
    ∃ front behind, Path.splitAtRelative option.toList = some (front, behind) ∧
      front.length ≤ before.length := by
  have starts : startsRelative (path.toList ++ after.toList) = true := by
    rcases startsRelative_iff.mp place.relative with ⟨rest, chars⟩ | ⟨rest, chars⟩ <;>
      rw [chars] <;> rfl
  rw [place.whole, String.append_assoc, String.toList_append, String.toList_append,
    ← String.length_toList]
  exact splitAtRelative_append starts

theorem takeWhile_line (place : PathIn option before path after) :
    (path.toList ++ after.toList).takeWhile (· ≠ '\n') = path.toList := by
  have inside : ∀ char ∈ path.toList, decide (char ≠ '\n') = true := by
    intro char member
    exact decide_eq_true fun same => place.inLine (same ▸ member)
  rw [List.takeWhile_append_of_pos inside]
  rcases place.ends with rfl | ⟨lines, rfl⟩
  · exact List.append_nil _
  · rw [String.toList_append]
    exact List.append_nil _

theorem eq_of_length {front inside behind : String} (place : PathIn option before path after)
    (other : PathIn option front inside behind) (same : before.length = front.length) :
    front = before ∧ inside = path ∧ behind = after := by
  have chars : before.toList ++ (path.toList ++ after.toList) =
      front.toList ++ (inside.toList ++ behind.toList) := by
    rw [← List.append_assoc, ← List.append_assoc, ← String.toList_append,
      ← String.toList_append, ← String.toList_append, ← String.toList_append, ← place.whole,
      ← other.whole]
  rw [← String.length_toList, ← String.length_toList] at same
  rcases List.append_inj chars same with ⟨fronts, rests⟩
  have paths : path.toList = inside.toList := by
    rw [← place.takeWhile_line, ← other.takeWhile_line, rests]
  refine ⟨(String.toList_inj.mp fronts).symm, (String.toList_inj.mp paths).symm, ?_⟩
  rw [paths] at rests
  exact (String.toList_inj.mp (List.append_cancel_left rests)).symm

end PathIn

theorem firstPathIn_of_search {front behind : List Char}
    (found : splitAtRelative option.toList = some (front, behind)) :
    FirstPathIn option (String.ofList front) (String.ofList (behind.takeWhile (· ≠ '\n')))
      (String.ofList (behind.dropWhile (· ≠ '\n'))) := by
  rcases splitAtRelative_eq_some found with ⟨whole, relative⟩
  refine ⟨⟨?_, ?_, ?_, ?_⟩, ?_⟩
  · rw [← String.toList_inj]
    simp [whole, List.takeWhile_append_dropWhile]
  · rw [String.toList_ofList, startsRelative_iff]
    rcases startsRelative_iff.mp relative with ⟨rest, rfl⟩ | ⟨rest, rfl⟩
    · exact .inl ⟨_, rfl⟩
    · exact .inr ⟨_, rfl⟩
  · rw [String.toList_ofList]
    intro member
    simpa using List.all_eq_true.mp List.all_takeWhile _ member
  · cases rest : behind.dropWhile (· ≠ '\n') with
    | nil => exact .inl rfl
    | cons char others =>
        have stopped := List.head?_dropWhile_not (fun char : Char => decide (char ≠ '\n')) behind
        rw [rest] at stopped
        have newline : char = '\n' := by simpa using stopped
        refine .inr ⟨String.ofList others, ?_⟩
        rw [newline, ← String.toList_inj]
        simp
  · intro earlier inside further place
    rcases place.splitAtRelative with ⟨first, rest, again, shorter⟩
    rw [found] at again
    cases again
    simpa using shorter

theorem anchorOption_of_first (base : String) (place : FirstPathIn option before path after) :
    anchorOption base option = before ++ anchor base path := by
  rcases place.splitAtRelative with ⟨front, behind, found, shorter⟩
  have first := firstPathIn_of_search found
  have same : before.length = (String.ofList front).length :=
    Nat.le_antisymm (place.first first.toPathIn) (by simpa using shorter)
  rcases place.toPathIn.eq_of_length first.toPathIn same with ⟨fronts, paths, -⟩
  rw [anchorOption, found]
  dsimp only
  rw [fronts, paths]

theorem anchorOption_of_none (base : String)
    (none : ∀ before path after, ¬ PathIn option before path after) :
    anchorOption base option = option := by
  cases found : splitAtRelative option.toList with
  | none => rw [anchorOption, found]
  | some parts => exact absurd (firstPathIn_of_search found).toPathIn (none _ _ _)

theorem PathIn.exists_first (place : PathIn option before path after) :
    ∃ front line behind, FirstPathIn option front line behind ∧ front.length ≤ before.length := by
  rcases place.splitAtRelative with ⟨front, rest, found, shorter⟩
  exact ⟨_, _, _, firstPathIn_of_search found, by simpa using shorter⟩

theorem FirstPathIn.anchorOption_ne (place : FirstPathIn option before path after)
    (base rest : String) : anchorOption base option ≠ before ++ ("." ++ rest) := by
  rcases exists_anchor_of_startsRelative base place.relative with ⟨below, written⟩
  rw [anchorOption_of_first base place, written]
  intro same
  have chars := congrArg String.toList same
  simp only [String.toList_append] at chars
  cases List.head_eq_of_cons_eq (List.append_cancel_left chars)

theorem FirstPathIn.exists_dot (place : FirstPathIn option before path after) {front rest : String}
    (whole : option = front ++ rest) (further : before.length < front.length) :
    ∃ more, front = before ++ ("." ++ more) := by
  rcases List.head?_eq_some_iff.mp (head?_of_startsRelative place.relative) with ⟨others, dot⟩
  have chars : before.toList ++ '.' :: (others ++ after.toList) =
      front.toList ++ rest.toList := by
    rw [← String.toList_append, ← whole, place.whole, String.toList_append, String.toList_append,
      dot, List.append_assoc, List.cons_append]
  rw [← String.length_toList, ← String.length_toList] at further
  rcases List.append_eq_append_iff.mp chars with ⟨more, fronts, rests⟩ | ⟨more, fronts, -⟩
  · cases more with
    | nil =>
        rw [fronts, List.append_nil] at further
        exact absurd further (Nat.lt_irrefl _)
    | cons char more =>
        rw [List.cons_append, List.cons.injEq] at rests
        refine ⟨String.ofList more, ?_⟩
        rw [← String.toList_inj, fronts, ← rests.1]
        simp
  · rw [fronts, List.length_append] at further
    omega

theorem anchorOption_eq_self (base : String) :
    anchorOption base option = option ↔
      ∀ before path after, ¬ PathIn option before path after := by
  refine ⟨fun unchanged before path after place => ?_, anchorOption_of_none base⟩
  rcases place.exists_first with ⟨front, line, behind, first, -⟩
  rcases List.head?_eq_some_iff.mp (head?_of_startsRelative first.relative) with ⟨rest, dot⟩
  apply first.anchorOption_ne base (String.ofList rest ++ behind)
  rw [unchanged, ← String.toList_inj, first.whole]
  simp [dot]

/-- An option is left alone where `./` and `../` do not stand in it at all. Otherwise what is
rewritten is the place that comes first, whatever stands in front of it, and it is what the
option ends with: at any place, the path there is hung on the root and all other text is kept
just when no such place comes earlier and no line comes later. -/
theorem options_rewritten_at_first_path (base option : String) :
    (anchorOption base option = option ↔ ∀ before path after, ¬ PathIn option before path after) ∧
    (∀ before path after, FirstPathIn option before path after →
      anchorOption base option = before ++ anchor base path) ∧
    ∀ before path after, PathIn option before path after →
      (anchorOption base option = before ++ anchor base path ++ after ↔
        FirstPathIn option before path after ∧ after = "") := by
  refine ⟨anchorOption_eq_self base, fun _ _ _ => anchorOption_of_first base, ?_⟩
  intro before path after place
  constructor
  · intro kept
    rcases place.exists_first with ⟨front, line, behind, first, shorter⟩
    rcases Nat.lt_or_eq_of_le shorter with earlier | same
    · rcases first.exists_dot (place.whole.trans String.append_assoc) earlier with ⟨more, dot⟩
      rw [dot, String.append_assoc, String.append_assoc, String.append_assoc] at kept
      exact absurd kept (first.anchorOption_ne base _)
    · rcases first.toPathIn.eq_of_length place same with ⟨rfl, rfl, rfl⟩
      refine ⟨first, ?_⟩
      rw [anchorOption_of_first base first] at kept
      have chars : (before ++ anchor base path).toList =
          (before ++ anchor base path).toList ++ after.toList := by
        rw [← String.toList_append, ← kept]
      exact String.toList_eq_nil_iff.mp (List.self_eq_append_right.mp chars)
  · intro found
    rw [anchorOption_of_first base found.1, found.2, String.append_empty]

theorem options_rewritten_at_first_path_include :
    let option := "-include ../cfg.h"
    PathIn option "-include " "../cfg.h" "" ∧ FirstPathIn option "-include " "../cfg.h" "" ∧
      anchorOption "app/sub" option = "-include " ++ (solutionRoot ++ "/app/cfg.h") ++ "" := by
  intro option
  have found : splitAtRelative option.toList = some ("-include ".toList, "../cfg.h".toList) := by
    decide
  have first : FirstPathIn option "-include " "../cfg.h" "" := firstPathIn_of_search found
  have rewritten := (options_rewritten_at_first_path "app/sub" option).2.2 _ _ _ first.toPathIn
  have path : anchor "app/sub" "../cfg.h" = solutionRoot ++ "/app/cfg.h" := by decide
  rw [path] at rewritten
  exact ⟨first.toPathIn, first, rewritten.mpr ⟨first, rfl⟩⟩

/-- A path that is anchored is rewritten where it goes up, and lines behind a path are lost. -/
theorem anchored_option_rewritten_and_lines_lost :
    let directory := "$\x7bPACK\x7d/../inc"
    let option := "-include ./cfg.h\n-O2"
    (isAnchored directory = true ∧
      (∀ before path after, PathIn ("-I" ++ directory) before path after →
        "-I".length ≤ before.length) ∧
      anchorOption "app" ("-I" ++ directory) ≠ "-I" ++ directory) ∧
    FirstPathIn option "-include " "./cfg.h" "\n-O2" ∧
      anchorOption "app" option ≠ "-include " ++ anchor "app" "./cfg.h" ++ "\n-O2" := by
  intro directory option
  have ascent : splitAtRelative ("-I" ++ directory).toList =
      some ("-I$\x7bPACK\x7d/".toList, "../inc".toList) := by
    decide
  have inside : FirstPathIn ("-I" ++ directory) "-I$\x7bPACK\x7d/" "../inc" "" :=
    firstPathIn_of_search ascent
  have found : splitAtRelative option.toList =
      some ("-include ".toList, "./cfg.h\n-O2".toList) := by
    decide
  refine ⟨⟨by decide, fun before path after place => ?_, by decide⟩,
    firstPathIn_of_search found, by decide⟩
  exact Nat.le_trans (by decide) (inside.first place)

end SolutionLists.Path
