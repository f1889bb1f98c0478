import SolutionLists.Proofs.Version.Grammar

namespace SolutionLists.Version

/-! Constraints that are one complete version. The set of such a constraint reaches from that
release to the next one, and pre-releases of the next one come before it. -/

/-! ## Versions and releases -/

/-- A release comes before a version with greater numbers, and before one with the same
numbers that is no pre-release. -/
theorem release_le_iff {version : Version} {major minor patch : Nat} :
    ⟨major, minor, patch, [], []⟩ ≤ version ↔
      [major, minor, patch] < version.numbers ∨
        [major, minor, patch] = version.numbers ∧ version.preRelease = [] := by
  by_cases release : version.preRelease = []
  · rw [release_le release, le_iff_lt_or_eq]
    simp [release]
  · have behind : comparePreReleases [] version.preRelease = .gt := by
      cases identifiers : version.preRelease with
      | nil => exact absurd identifiers release
      | cons first rest => rfl
    change (order _ version).isLE = true ↔ _
    simp only [order, behind, Ordering.isLE_then_iff_and, numbers, List.cons_lt_cons_iff,
      Nat.isLE_compare, Nat.compare_eq_lt]
    simp [release]
    omega

/-! ## One complete version -/

/-- A constraint that is nothing but a version with all its numbers. -/
structure WritesExact (text : String) (major minor patch : Nat) : Prop where
  written : WritesVersion (Text.trim text).toList [major, minor, patch]
  whole : ∀ char ∈ (Text.trim text).toList, char ≠ ',' ∧ Text.isBlank char = false
  single : ¬ ['|', '|'] <:+: (Text.trim text).toList

theorem tokens_of_whole {chars : List Char} (something : chars ≠ [])
    (whole : ∀ char ∈ chars, char ≠ ',' ∧ Text.isBlank char = false) :
    tokens chars = [chars] := by
  have plain : ∀ char ∈ chars, ¬ IsSeparator char := by
    intro char member
    simp [IsSeparator, whole char member]
  have cut : CutIntoTokens (chars ++ []) [chars] := .token something plain (by simp) .nil
  rw [List.append_nil] at cut
  exact tokens_iff.mpr cut

namespace WritesExact

variable {text : String} {major minor patch : Nat} (exact : WritesExact text major minor patch)
include exact

theorem tokens_eq :
    tokens (Text.trim text).toList = [(Text.trim text).toList] := by
  rcases exact.written.exists_eq with ⟨char, rest, chars, -⟩
  exact tokens_of_whole (by rw [chars]; exact List.cons_ne_nil _ _) exact.whole

theorem parse_eq :
    Constraint.parse text = (next patch).map fun following =>
      ⟨Text.trim text, .union .empty (.intersection .full
        (.between ⟨major, minor, patch, [], []⟩ ⟨major, minor, following, [], []⟩))⟩ := by
  rcases exact.written.exists_eq with ⟨char, rest, chars, isVersion⟩
  have notEmpty : Text.trim text ≠ "" := by
    intro empty
    rw [empty] at chars
    exact absurd chars (by simp)
  have joined : joinOperators none [(Text.trim text).toList] = .ok [(Text.trim text).toList] := by
    apply joinOperators_iff.mpr
    refine .alone (fun detached => ?_) .nil
    rw [chars, ← isDetached_iff, List.all_cons, isVersion] at detached
    cases detached
  have bare : [] ∈ Operator.equal.writings := by decide
  have range := comparatorRange_eq bare exact.written
  rw [List.nil_append] at range
  rw [Constraint.parse, if_neg notEmpty, alternatives_of_single exact.single]
  simp only [List.foldlM_cons, List.foldlM_nil, Constraint.alternativeRange, exact.tokens_eq,
    joined, Constraint.conjunction, range, Operator.range]
  have ceiling : (Partial.ofNumbers [major, minor, patch]).ceiling =
      (next patch).map fun following => some ⟨major, minor, following, [], []⟩ := rfl
  rw [ceiling]
  cases next patch <;> rfl

end WritesExact

/-- From a release up to the one with the next patch there is nothing but the release, with
any build, and the pre-releases of the next one. -/
theorem between_releases {version : Version} {major minor patch : Nat} :
    ⟨major, minor, patch, [], []⟩ ≤ version ∧ version < ⟨major, minor, patch + 1, [], []⟩ ↔
      version.numbers = [major, minor, patch] ∧ version.preRelease = [] ∨
        version.numbers = [major, minor, patch + 1] ∧ version.preRelease ≠ [] := by
  rw [← not_le, release_le_iff, release_le_iff]
  by_cases release : version.preRelease = []
  · simp [release, numbers, List.cons_lt_cons_iff]
    omega
  · simp [release, numbers, List.cons_lt_cons_iff]
    omega

theorem contains_exact {first last : Version} (before : first < last) (version : Version) :
    (Range.union .empty (.intersection .full (.between first last))).contains version = true ↔
      first ≤ version ∧ version < last := by
  have between : (Range.between first last).IsAscending := (Range.means_between before).ascending
  have full : Range.full.IsAscending := .nil
  have empty : Range.empty.IsAscending := .nil
  have inner : (Range.intersection .full (.between first last)).IsAscending :=
    (Range.swept_combine full between _).ascending
  rw [Range.contains_union empty inner, Range.contains_intersection full between,
    Range.contains_between before]
  simp [Range.empty, Range.full, Range.contains]

/-- A complete version accepts its release, whatever the build, and no pre-release of it; the
pre-releases that it does accept are those of the release with the next patch. -/
theorem Constraint.exact_accepts_release {text : String} {constraint : Constraint}
    {major minor patch : Nat} (exact : WritesExact text major minor patch)
    (parsed : parse text = .ok constraint) (version : Version) :
    constraint.accepts version = true ↔
      version.numbers = [major, minor, patch] ∧ version.preRelease = [] ∨
        version.numbers = [major, minor, patch + 1] ∧ version.preRelease ≠ [] := by
  have before : (⟨major, minor, patch, [], []⟩ : Version) < ⟨major, minor, patch + 1, [], []⟩ := by
    rw [lt_release rfl]
    simp [numbers, List.cons_lt_cons_iff]
  rw [exact.parse_eq] at parsed
  rcases map_eq_ok parsed with ⟨following, bounded, rfl⟩
  rw [eq_succ_of_next bounded, accepts, contains_exact before, between_releases]

namespace Constraint

private def suffixedConstraint : Constraint where
  source := "6.19.0-rc.1"
  range := .between ⟨6, 19, 0, [], []⟩ ⟨6, 19, 1, [], []⟩

private theorem parse_suffixed : parse "6.19.0-rc.1" = .ok suffixedConstraint := by
  decide +kernel

private theorem writesExact_suffixed : WritesExact "6.19.0-rc.1" 6 19 0 where
  written := by
    have text : (Text.trim "6.19.0-rc.1").toList =
        [] ++ ['.'].intercalate (["6".toList, "19".toList, "0".toList] ++ []) ++
          "-rc.1".toList := by decide
    rw [text]
    refine .intro (.inl rfl) (.cons ?_ (.cons ?_ (.cons ?_ .nil))) nofun (by decide) (by decide) ?_
    · exact ⟨by decide, List.all_eq_true.mp (by decide), rfl, by decide⟩
    · exact ⟨by decide, List.all_eq_true.mp (by decide), rfl, by decide⟩
    · exact ⟨by decide, List.all_eq_true.mp (by decide), rfl, by decide⟩
    · intro char first
      exact .inl (Option.some.inj first).symm
  whole := by
    have all : (Text.trim "6.19.0-rc.1").toList.all
        (fun char => char ≠ ',' && !Text.isBlank char) = true := by decide
    simpa using all
  single := by decide

/-- The suffix does not count: the release is accepted, and the pre-release is not. -/
theorem exact_accepts_release_suffixed :
    WritesExact "6.19.0-rc.1" 6 19 0 ∧ parse "6.19.0-rc.1" = .ok suffixedConstraint ∧
      ∀ version : Version, suffixedConstraint.accepts version = true ↔
        version.numbers = [6, 19, 0] ∧ version.preRelease = [] ∨
          version.numbers = [6, 19, 0 + 1] ∧ version.preRelease ≠ [] :=
  ⟨writesExact_suffixed, parse_suffixed, exact_accepts_release writesExact_suffixed parse_suffixed⟩

/-- A pre-release of the next patch is accepted. -/
theorem exact_accepts_next_preRelease :
    ¬ ∀ (text : String) (constraint : Constraint) (major minor patch : Nat),
      WritesExact text major minor patch → parse text = .ok constraint →
        ∀ version : Version, constraint.accepts version = true ↔
          version.numbers = [major, minor, patch] := by
  intro always
  have same := always _ _ 6 19 0 writesExact_suffixed parse_suffixed ⟨6, 19, 1, ["rc", "1"], []⟩
  exact absurd (same.mp (by decide)) (by decide)

end Constraint

end SolutionLists.Version
