import Mathlib.Data.List.Lex
import SolutionLists.Proofs.Version.Range
import SolutionLists.Version.Constraint

namespace SolutionLists.Version

/-! What a comparator says about releases: it compares their numbers with those that it
gives. The set that is made of it says the same. -/

/-! ## Numbers -/

def numbers (version : Version) : List Nat :=
  [version.major, version.minor, version.patch]

/-- The release with the given numbers in front and zeros behind them. -/
def padded (numbers : List Nat) : Version where
  major := numbers[0]?.getD 0
  minor := numbers[1]?.getD 0
  patch := numbers[2]?.getD 0

/-- An operator with the numbers that it compares versions with. -/
structure Comparator where
  operator : Operator
  given : List Nat
deriving DecidableEq, Repr

namespace Comparator

/-- The numbers of a version as far as the comparator gives some. -/
def cut (comparator : Comparator) (version : Version) : List Nat :=
  version.numbers.take comparator.given.length

/-- How many numbers `^` fixes: those up to the first that is not zero. -/
def fixed (given : List Nat) : Nat :=
  (given.takeWhile (· = 0)).length + 1

/-- Whether a version is at least the comparator's and agrees with it in its first
numbers. -/
def AgreesFrom (comparator : Comparator) (count : Nat) (version : Version) : Prop :=
  padded comparator.given ≤ version ∧
    (comparator.cut version).take count = comparator.given.take count

def Admits (comparator : Comparator) (version : Version) : Prop :=
  let cut := comparator.cut version
  let given := comparator.given
  match comparator.operator with
  | .equal => cut = given
  | .notEqual => cut ≠ given
  | .greater => given < cut
  | .greaterOrEqual => given ≤ cut
  | .less => cut < given
  | .lessOrEqual => cut ≤ given
  | .tilde => comparator.AgreesFrom 2 version
  | .caret => comparator.AgreesFrom (fixed given) version

end Comparator

/-! ## Releases -/

section Release

variable {version : Version} (release : version.preRelease = [])
include release

theorem release_le {major minor patch : Nat} :
    ⟨major, minor, patch, [], []⟩ ≤ version ↔ [major, minor, patch] ≤ version.numbers := by
  have metadata : ((comparePreReleases [] version.preRelease).then
      (compareIdentifiers [] version.build)).isLE = true := by
    rw [release]
    cases version.build <;> rfl
  change (order _ version).isLE = true ↔ _
  simp only [order, Ordering.isLE_then_iff_and, metadata, Nat.isLE_compare, Nat.compare_eq_lt,
    numbers, ← not_lt, List.cons_lt_cons_iff]
  simp
  omega

theorem lt_release {major minor patch : Nat} :
    version < ⟨major, minor, patch, [], []⟩ ↔ version.numbers < [major, minor, patch] := by
  rw [← not_le, ← not_le, release_le release]

end Release

/-! ## Floors and ceilings -/

theorem map_eq_ok {ε α β : Type} {result : Except ε α} {change : α → β} {value : β}
    (found : result.map change = .ok value) :
    ∃ inner, result = .ok inner ∧ change inner = value := by
  cases result with
  | error error => cases found
  | ok inner => exact ⟨inner, rfl, Except.ok.inj found⟩

theorem eq_succ_of_next {part following : Nat} (found : next part = .ok following) :
    following = part + 1 := by
  rw [next] at found
  split at found
  · exact (Except.ok.inj found).symm
  · cases found

namespace Partial

/-- The partial version that gives no more than three numbers. -/
def ofNumbers (given : List Nat) : Partial := ⟨given[0]?, given[1]?, given[2]?⟩

theorem numbers_cases {given : List Nat} (short : given.length ≤ 3) :
    given = [] ∨ (∃ major, given = [major]) ∨ (∃ major minor, given = [major, minor]) ∨
      ∃ major minor patch, given = [major, minor, patch] := by
  match given, short with
  | [], _ => exact .inl rfl
  | [major], _ => exact .inr (.inl ⟨major, rfl⟩)
  | [major, minor], _ => exact .inr (.inr (.inl ⟨major, minor, rfl⟩))
  | [major, minor, patch], _ => exact .inr (.inr (.inr ⟨major, minor, patch, rfl⟩))

theorem map_next_eq_ok {part : Nat} {make : Nat → Option Version} {ceiling : Option Version}
    (found : (next part).map make = .ok ceiling) : ceiling = make (part + 1) := by
  rcases map_eq_ok found with ⟨following, bounded, rfl⟩
  rw [eq_succ_of_next bounded]

section Release

variable {given : List Nat} (short : given.length ≤ 3) {version : Version}
  (release : version.preRelease = [])
include short release

/-- A release is at least the lowest version exactly where its numbers, as far as they are
given, are at least those given. -/
theorem padded_le : padded given ≤ version ↔ given ≤ version.numbers.take given.length := by
  change (⟨_, _, _, [], []⟩ : Version) ≤ version ↔ _
  rw [release_le release]
  rcases numbers_cases short with
    rfl | ⟨major, rfl⟩ | ⟨major, minor, rfl⟩ | ⟨major, minor, patch, rfl⟩
  all_goals
    simp only [numbers, ← not_lt]
    simp [List.cons_lt_cons_iff]

/-- A release is below the ceiling exactly where its numbers, as far as they are given, are
at most those given. -/
theorem below_ceiling {ceiling : Option Version}
    (found : (ofNumbers given).ceiling = .ok ceiling) :
    (∀ upper, ceiling = some upper → version < upper) ↔
      version.numbers.take given.length ≤ given := by
  rcases numbers_cases short with
    rfl | ⟨major, rfl⟩ | ⟨major, minor, rfl⟩ | ⟨major, minor, patch, rfl⟩
  · cases found
    simp
  all_goals
    cases map_next_eq_ok found
    simp only [Option.some.injEq, forall_eq', lt_release release, numbers, ← not_lt]
  · simp [List.cons_lt_cons_iff]
  · simp [List.cons_lt_cons_iff]
    omega
  · simp [List.cons_lt_cons_iff]
    omega

end Release

theorem eq_nil_of_ceiling {given : List Nat} (short : given.length ≤ 3)
    (unbounded : (ofNumbers given).ceiling = .ok none) : given = [] := by
  rcases numbers_cases short with
    rfl | ⟨major, rfl⟩ | ⟨major, minor, rfl⟩ | ⟨major, minor, patch, rfl⟩
  · rfl
  all_goals cases map_next_eq_ok unbounded

theorem patchCeiling_ofNumbers {given : List Nat} (short : given.length ≤ 3) :
    (ofNumbers given).patchCeiling = (ofNumbers (given.take 2)).ceiling := by
  rcases numbers_cases short with
    rfl | ⟨major, rfl⟩ | ⟨major, minor, rfl⟩ | ⟨major, minor, patch, rfl⟩ <;> rfl

theorem caretCeiling_ofNumbers {given : List Nat} (short : given.length ≤ 3) :
    (ofNumbers given).caretCeiling = (ofNumbers (given.take (Comparator.fixed given))).ceiling := by
  rcases numbers_cases short with
    rfl | ⟨major, rfl⟩ | ⟨major, minor, rfl⟩ | ⟨major, minor, patch, rfl⟩
  · rfl
  · cases major <;> rfl
  · cases major <;> cases minor <;> rfl
  · cases major <;> cases minor <;> cases patch <;> rfl

/-! ## From the numbers up to a ceiling -/

theorem numbers_padded {given : List Nat} (short : given.length ≤ 3) :
    (padded given).numbers.take given.length = given := by
  rcases numbers_cases short with
    rfl | ⟨major, rfl⟩ | ⟨major, minor, rfl⟩ | ⟨major, minor, patch, rfl⟩ <;> rfl

theorem take_cut (operator : Operator) (given : List Nat) (count : Nat) (version : Version) :
    (Comparator.cut ⟨operator, given⟩ version).take count =
      version.numbers.take (given.take count).length := by
  rw [Comparator.cut, List.take_take, List.length_take]

section UpTo

variable {given : List Nat} (short : given.length ≤ 3)
include short

theorem numbers_padded_take (count : Nat) :
    (padded given).numbers.take (given.take count).length = given.take count := by
  rw [← take_cut .equal, Comparator.cut, numbers_padded short]

variable {count : Nat} {version : Version} (release : version.preRelease = [])

include release in
theorem agreesFrom_iff (operator : Operator) :
    Comparator.AgreesFrom ⟨operator, given⟩ count version ↔
      padded given ≤ version ∧
        version.numbers.take (given.take count).length ≤ given.take count := by
  have shortTake : (given.take count).length ≤ 3 := le_trans (List.length_take_le' _ _) short
  have lower : padded (given.take count) ≤ padded given :=
    (padded_le shortTake rfl).mpr (numbers_padded_take short count).ge
  rw [Comparator.AgreesFrom, take_cut]
  refine and_congr_right fun atLeast => ⟨fun same => same.le, fun atMost => ?_⟩
  exact le_antisymm atMost ((padded_le shortTake release).mp (le_trans lower atLeast))

variable {ceiling : Option Version} (found : (ofNumbers (given.take count)).ceiling = .ok ceiling)
include found

theorem padded_lt_ceiling {upper : Version} (bounded : ceiling = some upper) :
    padded given < upper := by
  have shortTake : (given.take count).length ≤ 3 := le_trans (List.length_take_le' _ _) short
  exact (below_ceiling shortTake rfl found).mpr (numbers_padded_take short count).le
    upper bounded

theorem means_upTo (positive : 0 < count) (operator : Operator) :
    ((ofNumbers given).upTo ceiling).Means
      (Comparator.AgreesFrom ⟨operator, given⟩ count) := by
  have shortTake : (given.take count).length ≤ 3 := le_trans (List.length_take_le' _ _) short
  have meaning : ∀ version : Version, version.preRelease = [] →
      (padded given ≤ version ∧ (∀ upper, ceiling = some upper → version < upper) ↔
        Comparator.AgreesFrom ⟨operator, given⟩ count version) := fun version release => by
    rw [agreesFrom_iff short release, ← below_ceiling shortTake release found]
  cases ceiling with
  -- Without a ceiling no number is given, and all releases are meant.
  | none =>
      have empty := (List.take_eq_nil_iff.mp (eq_nil_of_ceiling shortTake found)).resolve_left
        positive.ne'
      subst empty
      refine Range.means_full.congr fun version release => ?_
      have lowest : padded [] ≤ version := (padded_le short release).mpr le_rfl
      simp [← meaning version release, lowest]
  | some upper =>
      have before := padded_lt_ceiling short found rfl
      refine (Range.means_between before).congr fun version release => ?_
      simp [← meaning version release]

end UpTo

end Partial

/-! ## The set of a comparator -/

namespace Comparator

variable {operator : Operator} {given : List Nat} (short : given.length ≤ 3)
include short

theorem agreesFrom_all {version : Version} (release : version.preRelease = []) :
    AgreesFrom ⟨operator, given⟩ 3 version ↔ cut ⟨operator, given⟩ version = given := by
  have whole : given.take 3 = given := List.take_of_length_le short
  rw [Partial.agreesFrom_iff short release, whole, Partial.padded_le short release]
  exact ⟨fun both => le_antisymm both.2 both.1, fun same => ⟨same.ge, same.le⟩⟩

variable {range : Range} (found : operator.range (.ofNumbers given) = .ok range)
include found

theorem means_admits : range.Means (Admits ⟨operator, given⟩) := by
  have whole : given.take 3 = given := List.take_of_length_le short
  cases operator with
  | equal =>
      rcases map_eq_ok found with ⟨ceiling, bounded, rfl⟩
      rw [← whole] at bounded
      exact (Partial.means_upTo short bounded (by decide) .equal).congr fun _ release =>
        agreesFrom_all short release
  | notEqual =>
      rcases map_eq_ok found with ⟨ceiling, bounded, rfl⟩
      rw [← whole] at bounded
      exact (Partial.means_upTo short bounded (by decide) .notEqual).complement.congr
        fun _ release => not_congr (agreesFrom_all short release)
  | greater =>
      rcases map_eq_ok found with ⟨ceiling, bounded, rfl⟩
      have meaning : ∀ version : Version, version.preRelease = [] →
          (¬ (∀ upper, ceiling = some upper → version < upper) ↔
            Admits ⟨.greater, given⟩ version) := fun version release =>
        (not_congr (Partial.below_ceiling short release bounded)).trans not_le
      cases ceiling with
      | none =>
          refine Range.means_empty.congr fun version release => ?_
          simp [← meaning version release]
      | some upper =>
          refine (Range.means_atLeast upper).congr fun version release => ?_
          simp [← meaning version release]
  | greaterOrEqual =>
      cases found
      exact (Range.means_atLeast _).congr fun version release => Partial.padded_le short release
  | less =>
      cases found
      refine (Range.means_below _).congr fun version release => ?_
      exact not_le.symm.trans ((not_congr (Partial.padded_le short release)).trans not_le)
  | lessOrEqual =>
      rcases map_eq_ok found with ⟨ceiling, bounded, rfl⟩
      have meaning : ∀ version : Version, version.preRelease = [] →
          ((∀ upper, ceiling = some upper → version < upper) ↔
            Admits ⟨.lessOrEqual, given⟩ version) := fun version release =>
        Partial.below_ceiling short release bounded
      cases ceiling with
      | none =>
          refine Range.means_full.congr fun version release => ?_
          simp [← meaning version release]
      | some upper =>
          refine (Range.means_below upper).congr fun version release => ?_
          simp [← meaning version release]
  | tilde =>
      rcases map_eq_ok found with ⟨ceiling, bounded, rfl⟩
      rw [Partial.patchCeiling_ofNumbers short] at bounded
      exact Partial.means_upTo short bounded (by decide) .tilde
  | caret =>
      rcases map_eq_ok found with ⟨ceiling, bounded, rfl⟩
      rw [Partial.caretCeiling_ofNumbers short] at bounded
      exact Partial.means_upTo short bounded (Nat.succ_pos _) .caret

end Comparator

end SolutionLists.Version
