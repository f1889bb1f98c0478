import Mathlib.Data.Nat.Digits.Lemmas
import Mathlib.Order.Compare
import SolutionLists.Version.Basic

namespace SolutionLists

/-! Versions are linearly ordered, and only equal versions share a place: identifiers that
differ in no more than their leading zeros are still told apart. -/

open Std (LawfulEqCmp TransCmp)

theorem transCmp_on {α β : Type} (key : α → β) (compareKeys : β → β → Ordering)
    [TransCmp compareKeys] : TransCmp fun left right => compareKeys (key left) (key right) where
  eq_swap {left right} := @Std.OrientedCmp.eq_swap _ compareKeys _ (key left) (key right)
  isLE_trans {_ _ _} := @TransCmp.isLE_trans _ compareKeys _ _ _ _

namespace Version

/-! ## Identifiers -/

namespace Rank

theorem compareWords_eq : compareWords = List.compareLex (compareOn Char.toNat) := by
  funext left right
  induction left generalizing right with
  | nil => cases right <;> rfl
  | cons first left induction =>
      cases right with
      | nil => rfl
      | cons second right =>
          rw [compareWords, induction, List.compareLex_cons_cons]
          rfl

instance : TransCmp compareWords := by
  rw [compareWords_eq]
  infer_instance

instance : LawfulEqCmp compareWords := by
  have lawful : LawfulEqCmp (compareOn Char.toNat) :=
    { eq_of_compare := fun same => Char.toNat_inj.mp (Nat.compare_eq_eq.mp same) }
  rw [compareWords_eq]
  infer_instance

theorem order_eq : order =
    compareLex (compareOn fun rank => rank.isWord.toNat)
      (compareLex (compareOn value)
        (compareLex (compareOn length) fun left right =>
          compareWords left.word right.word)) := rfl

instance : TransCmp order := by
  have words := transCmp_on word compareWords
  rw [order_eq]
  infer_instance

instance : LawfulEqCmp order where
  eq_of_compare {left right} same := by
    simp only [order, Ordering.then_eq_eq, Nat.compare_eq_eq] at same
    rcases same with ⟨kind, value, length, word⟩
    have sameKind := congrArg Bool.ofNat kind
    rw [Bool.ofNat_toNat, Bool.ofNat_toNat] at sameKind
    have sameWord := LawfulEqCmp.eq_of_compare word
    cases left
    cases right
    simp_all

end Rank

/-- The number that decimal digits stand for, the most significant first. -/
def decimal (digits : List Char) : Nat :=
  digits.foldl (fun value digit => 10 * value + (digit.toNat - '0'.toNat)) 0

def digitValue (digit : Char) : Nat := digit.toNat - '0'.toNat

theorem decimal_eq (digits : List Char) :
    decimal digits = Nat.ofDigits 10 (digits.map digitValue).reverse := by
  rw [decimal, Nat.ofDigits_eq_foldr, List.foldr_reverse, List.foldl_map]
  simp only [Nat.cast_id, Nat.add_comm, digitValue]

theorem ofNat_digitValue {digits : List Char} (all : digits.all Char.isDigit = true) :
    (digits.map digitValue).map (fun value => Char.ofNat ('0'.toNat + value)) = digits := by
  rw [List.map_map]
  refine (List.map_congr_left fun char inside => ?_).trans (List.map_id digits)
  have bounds := Char.isDigit_iff_toNat.mp (List.all_eq_true.mp all char inside)
  rw [Function.comp_apply, digitValue, Nat.add_sub_cancel' bounds.1, Char.ofNat_toNat, id]

theorem digitValue_lt {digit : Char} (isDigit : digit.isDigit = true) : digitValue digit < 10 := by
  have bounds := Char.isDigit_iff_toNat.mp isDigit
  have nine : '9'.toNat = '0'.toNat + 9 := rfl
  rw [digitValue]
  omega

theorem decimal_injective {left right : List Char} (leftDigits : left.all Char.isDigit = true)
    (rightDigits : right.all Char.isDigit = true) (length : left.length = right.length)
    (value : decimal left = decimal right) : left = right := by
  have small : ∀ {digits : List Char}, digits.all Char.isDigit = true →
      ∀ value ∈ (digits.map digitValue).reverse, value < 10 := by
    intro digits all value member
    rcases List.mem_map.mp (List.mem_reverse.mp member) with ⟨char, inside, rfl⟩
    exact digitValue_lt (List.all_eq_true.mp all char inside)
  rw [decimal_eq, decimal_eq] at value
  have reversed := Nat.ofDigits_inj_of_len_eq (by decide) (by simp [length])
    (small leftDigits) (small rightDigits) value
  rw [← ofNat_digitValue leftDigits, List.reverse_injective reversed,
    ofNat_digitValue rightDigits]

theorem Rank.ofIdentifier_injective : Function.Injective Rank.ofIdentifier := by
  intro first second same
  apply String.toList_injective
  simp only [Rank.ofIdentifier] at same
  split at same <;> split at same <;> simp only [Rank.mk.injEq] at same
  case isTrue.isTrue firstDigits secondDigits =>
    exact decimal_injective firstDigits secondDigits same.2.2.1 same.2.1
  case isFalse.isFalse => exact same.2.2.2
  all_goals simp at same

/-! ## Lists of identifiers -/

def compareRanks (first second : String) : Ordering :=
  (Rank.ofIdentifier first).order (Rank.ofIdentifier second)

instance : TransCmp compareRanks := transCmp_on Rank.ofIdentifier Rank.order

instance : LawfulEqCmp compareRanks where
  eq_of_compare same := Rank.ofIdentifier_injective (LawfulEqCmp.eq_of_compare same)

theorem compareIdentifiers_eq : compareIdentifiers = List.compareLex compareRanks := by
  funext left right
  induction left generalizing right with
  | nil => cases right <;> rfl
  | cons first left induction =>
      cases right with
      | nil => rfl
      | cons second right =>
          rw [compareIdentifiers, induction, List.compareLex_cons_cons]
          rfl

instance : TransCmp compareIdentifiers := by
  rw [compareIdentifiers_eq]
  infer_instance

instance : LawfulEqCmp compareIdentifiers := by
  rw [compareIdentifiers_eq]
  infer_instance

theorem comparePreReleases_eq : comparePreReleases =
    compareLex (compareOn fun identifiers => identifiers.isEmpty.toNat) compareIdentifiers := rfl

instance : TransCmp comparePreReleases := by
  rw [comparePreReleases_eq]
  infer_instance

/-! ## Versions -/

theorem order_eq : order =
    compareLex (compareOn major)
      (compareLex (compareOn minor)
        (compareLex (compareOn patch)
          (compareLex (fun left right => comparePreReleases left.preRelease right.preRelease)
            fun left right => compareIdentifiers left.build right.build))) := rfl

instance : TransCmp order := by
  have preReleases := transCmp_on preRelease comparePreReleases
  have builds := transCmp_on build compareIdentifiers
  rw [order_eq]
  infer_instance

instance : LawfulEqCmp order where
  eq_of_compare {left right} same := by
    simp only [order, comparePreReleases, Ordering.then_eq_eq, Nat.compare_eq_eq] at same
    rcases same with ⟨major, minor, patch, ⟨_, preRelease⟩, build⟩
    have samePreRelease := LawfulEqCmp.eq_of_compare preRelease
    have sameBuild := LawfulEqCmp.eq_of_compare build
    cases left
    cases right
    simp_all

theorem le_iff {left right : Version} : left ≤ right ↔ (order left right).isLE = true := Iff.rfl

theorem lt_iff {left right : Version} : left < right ↔ order left right = .lt := Iff.rfl

instance : LinearOrder Version where
  le_refl version := le_iff.mpr Std.ReflCmp.isLE_rfl
  le_trans _ _ _ first second :=
    le_iff.mpr (TransCmp.isLE_trans (le_iff.mp first) (le_iff.mp second))
  le_antisymm _ _ first second :=
    LawfulEqCmp.eq_of_compare
      (Std.OrientedCmp.isLE_antisymm (le_iff.mp first) (le_iff.mp second))
  le_total left right := by
    by_cases first : (order left right).isLE = true
    · exact .inl first
    · exact .inr (Ordering.isLE_of_eq_lt (Std.OrientedCmp.lt_of_not_isLE first))
  lt_iff_le_not_ge left right := by
    constructor
    · intro less
      exact ⟨Ordering.isLE_of_eq_lt less, Std.OrientedCmp.not_isLE_of_lt (lt_iff.mp less)⟩
    · intro parts
      exact Std.OrientedCmp.lt_of_not_isLE parts.2
  toDecidableLE := inferInstance
  toDecidableEq := inferInstance
  toDecidableLT := inferInstance
  compare_eq_compareOfLessAndEq left right := by
    change order left right = compareOfLessAndEq left right
    unfold compareOfLessAndEq
    split
    case isTrue less => exact less
    case isFalse notLess =>
      split
      case isTrue same =>
        subst same
        exact Std.ReflCmp.compare_self
      case isFalse different =>
        cases result : order left right with
        | lt => exact absurd result notLess
        | eq => exact absurd (LawfulEqCmp.eq_of_compare result) different
        | gt => rfl

end Version

end SolutionLists
