import Mathlib.Data.List.Basic
import SolutionLists.Proofs.LanguageMap

namespace SolutionLists

/-! Maps in which no bucket is there for nothing: what is there can be told from what the
buckets hold. -/

namespace LanguageMap

def Filled (paths : LanguageMap) : Prop :=
  ∀ language, paths.get? language ≠ some []

def keys (paths : LanguageMap) : List Language :=
  paths.toList.map (·.1)

theorem filled_empty : Filled {} := by
  intro language present
  cases language <;> cases present

theorem Filled.update {paths : LanguageMap} (filled : paths.Filled) (language : Language)
    {change : List String → List String} (grown : ∀ list, change list ≠ []) :
    (paths.update language change).Filled := by
  intro other
  rw [LanguageMap.update, get?_set]
  split
  case isTrue => exact fun nothing => grown _ (Option.some.inj nothing)
  case isFalse => exact filled other

theorem Filled.get?_eq_none {paths : LanguageMap} (filled : paths.Filled) {language : Language} :
    paths.get? language = none ↔ paths.get language = [] := by
  rw [get]
  cases present : paths.get? language with
  | none => simp
  | some list =>
      have something : list ≠ [] := fun nothing => filled language (nothing ▸ present)
      simpa using something

theorem keys_eq (paths : LanguageMap) :
    paths.keys = Language.buckets.filter fun language => (paths.get? language).isSome := by
  rw [keys, toList]
  induction Language.buckets with
  | nil => rfl
  | cons language rest induction =>
      rw [List.filterMap_cons, List.filter_cons]
      cases present : paths.get? language with
      | none => simpa using induction
      | some list => simpa using induction

theorem Filled.keys_eq {paths : LanguageMap} (filled : paths.Filled) :
    paths.keys = Language.buckets.filter fun language => paths.get language ≠ [] := by
  rw [LanguageMap.keys_eq]
  apply List.filter_congr
  intro language _
  rw [Bool.eq_iff_iff, Option.isSome_iff_ne_none, decide_eq_true_iff]
  exact not_congr filled.get?_eq_none

theorem Filled.keys_ne_nil {paths : LanguageMap} (filled : paths.Filled) :
    paths.keys ≠ [] ↔ ∃ language, paths.get language ≠ [] := by
  rw [filled.keys_eq, ne_eq, List.filter_eq_nil_iff]
  simp [Language.mem_buckets]

theorem Filled.isEmpty_eq_false {paths : LanguageMap} (filled : paths.Filled) :
    paths.isEmpty = false ↔ ∃ language, paths.get language ≠ [] := by
  rw [← filled.keys_ne_nil, keys, isEmpty, List.isEmpty_eq_false_iff, ne_eq, ne_eq,
    List.map_eq_nil_iff]

end LanguageMap

namespace ScopeMap

def Filled (includes : ScopeMap) : Prop :=
  ∀ scope languages, includes.get? scope = some languages →
    languages.Filled ∧ languages.keys ≠ []

/-- The scopes that are there, each with its buckets. -/
def keys (includes : ScopeMap) : List (Scope × List Language) :=
  includes.toList.map fun (scope, languages) => (scope, languages.keys)

theorem filled_empty : Filled {} := by
  intro scope languages present
  cases scope <;> cases present

theorem Filled.get {includes : ScopeMap} (filled : includes.Filled) (scope : Scope) :
    (includes.get scope).Filled := by
  rw [ScopeMap.get]
  cases present : includes.get? scope with
  | none => exact LanguageMap.filled_empty
  | some languages => exact (filled scope languages present).1

theorem Filled.update {includes : ScopeMap} (filled : includes.Filled) (scope : Scope)
    (language : Language) {change : List String → List String} (grown : ∀ list, change list ≠ []) :
    (includes.update scope (·.update language change)).Filled := by
  intro other languages present
  rw [ScopeMap.update, get?_set] at present
  split at present
  case isTrue =>
    cases present
    have updated := (filled.get scope).update language grown
    refine ⟨updated, updated.keys_ne_nil.mpr ⟨language, ?_⟩⟩
    rw [LanguageMap.get_update_of, if_pos rfl]
    exact grown _
  case isFalse => exact filled other languages present

theorem Filled.keys_eq {includes : ScopeMap} (filled : includes.Filled) :
    includes.keys = Scope.list.filterMap fun scope =>
      if (includes.get scope).keys = [] then none else some (scope, (includes.get scope).keys) := by
  rw [keys, toList, List.map_filterMap]
  apply List.filterMap_congr
  intro scope _
  rw [ScopeMap.get]
  cases present : includes.get? scope with
  | none => rfl
  | some languages => simp [(filled scope languages present).2]

theorem Filled.isEmpty_eq_false {includes : ScopeMap} (filled : includes.Filled) :
    includes.isEmpty = false ↔ ∃ scope language, (includes.get scope).get language ≠ [] := by
  have held : ∀ scope, (∃ languages, includes.get? scope = some languages) ↔
      ∃ language, (includes.get scope).get language ≠ [] := by
    intro scope
    rw [← (filled.get scope).keys_ne_nil, ScopeMap.get]
    cases present : includes.get? scope with
    | none => simp [LanguageMap.keys, LanguageMap.toList]
    | some languages => simpa using (filled scope languages present).2
  rw [isEmpty, List.isEmpty_eq_false_iff_exists_mem]
  simp only [← held, ← mem_toList, Prod.exists]

end ScopeMap

end SolutionLists
