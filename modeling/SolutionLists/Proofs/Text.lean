import Mathlib.Data.List.TakeWhile
import SolutionLists.Text.Search

namespace SolutionLists.Text

/-! Texts that stand in front of others, texts that stand behind them, and what is put together
from parts. -/

theorem startsWith_iff {text start : String} :
    startsWith text start = true ↔ ∃ rest, text = start ++ rest := by
  rw [startsWith, List.isPrefixOf_iff_prefix]
  constructor
  · rintro ⟨chars, whole⟩
    exact ⟨String.ofList chars, by rw [← String.toList_inj]; simp [whole]⟩
  · rintro ⟨rest, rfl⟩
    exact ⟨rest.toList, by simp⟩

theorem stripStart_append (start rest : String) :
    stripStart? (start ++ rest) start = some rest := by
  have starts : startsWith (start ++ rest) start = true := startsWith_iff.mpr ⟨rest, rfl⟩
  rw [stripStart?, if_pos starts, String.toList_append, ← String.length_toList,
    List.drop_left, String.ofList_toList]

theorem stripStart_eq_none {text start : String} (apart : ∀ rest, text ≠ start ++ rest) :
    stripStart? text start = none := by
  rw [stripStart?, if_neg]
  intro starts
  rcases startsWith_iff.mp starts with ⟨rest, whole⟩
  exact apart rest whole

theorem stripEnd_append (rest ending : String) :
    stripEnd? (rest ++ ending) ending = some rest := by
  have ends : endsWith (rest ++ ending) ending = true := by
    rw [endsWith, List.isSuffixOf_iff_suffix, String.toList_append]
    exact List.suffix_append _ _
  rw [stripEnd?, if_pos ends, String.length_append, Nat.add_sub_cancel, String.toList_append,
    ← String.length_toList, List.take_left, String.ofList_toList]

/-! ## Texts in two parts -/

theorem splitOnce_append {separator : Char} {before : String}
    (inside : separator ∉ before.toList) (after : String) :
    splitOnce separator (before ++ String.singleton separator ++ after) =
      some (before, after) := by
  have front : ∀ char ∈ before.toList, decide (char ≠ separator) = true := by
    intro char member
    exact decide_eq_true fun same => inside (same ▸ member)
  rw [splitOnce]
  simp only [String.toList_append, String.toList_singleton, List.append_assoc,
    List.singleton_append, List.takeWhile_append_of_pos front,
    List.dropWhile_append_of_pos front]
  simp

theorem splitOnce_eq_none {separator : Char} {text : String}
    (inside : separator ∉ text.toList) : splitOnce separator text = none := by
  have all : text.toList.dropWhile (· ≠ separator) = [] := by
    rw [List.dropWhile_eq_nil_iff]
    intro char member
    exact decide_eq_true fun same => inside (same ▸ member)
  rw [splitOnce, all]

/-! ## Many parts -/

/-- What relates nothing to nothing, and what follows one another to what follows one another,
relates parts one by one. -/
theorem related_flatMap {α β γ : Type} {related : List β → List γ → Prop} (nil : related [] [])
    (append : ∀ {first rest second further}, related first second → related rest further →
      related (first ++ rest) (second ++ further))
    {items : List α} {part : α → List β} {other : α → List γ}
    (each : ∀ item ∈ items, related (part item) (other item)) :
    related (items.flatMap part) (items.flatMap other) := by
  induction items with
  | nil => exact nil
  | cons item rest induction =>
      rw [List.flatMap_cons, List.flatMap_cons]
      refine append (each item List.mem_cons_self) (induction fun next member => ?_)
      exact each next (List.mem_cons_of_mem item member)

end SolutionLists.Text
