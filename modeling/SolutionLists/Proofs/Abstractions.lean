import SolutionLists.Abstractions

namespace SolutionLists

/-! Abstractions along a path of settings, the innermost first. Each field has the
nearest value that is set. -/

def nearestSet (values : List String) : String :=
  (values.find? (· ≠ "")).getD ""

theorem nearestSet_singleton (value : String) : nearestSet [value] = value := by
  by_cases unset : value = "" <;> simp [nearestSet, unset]

theorem nearestSet_cons (value : String) (outer : List String) :
    nearestSet (value :: outer) = Abstractions.nearer (nearestSet outer) value := by
  by_cases unset : value = "" <;> simp [nearestSet, Abstractions.nearer, unset]

namespace Abstractions

/-- For each field the nearest value that is set on a path. -/
def nearest (path : List Abstractions) : Abstractions where
  optimize := nearestSet (path.map (·.optimize))
  debug := nearestSet (path.map (·.debug))
  warnings := nearestSet (path.map (·.warnings))
  languageC := nearestSet (path.map (·.languageC))
  languageCxx := nearestSet (path.map (·.languageCxx))

theorem nearest_singleton (settings : Abstractions) : nearest [settings] = settings := by
  unfold nearest
  simp only [List.map_cons, List.map_nil, nearestSet_singleton]

theorem nearest_cons (inner : Abstractions) (outer : List Abstractions) :
    nearest (inner :: outer) = (nearest outer).inherit inner := by
  unfold nearest inherit
  simp only [List.map_cons, nearestSet_cons]

example : nearest [{ debug := "on" }, { optimize := "speed", debug := "off" }] =
    { optimize := "speed", debug := "on" } := by decide

/-! ## Settings that matter -/

theorem exists_single_of_isEmptyFor {settings : Abstractions} {language : Language}
    (matters : settings.isEmptyFor language = false) :
    ∃ single ∈ language.singles, settings.isEmptyFor single = false := by
  cases language with
  | all => exact ⟨.asm, by decide, by simpa [isEmptyFor, hasStandard] using matters⟩
  | asm => exact ⟨.asm, by decide, matters⟩
  | c => exact ⟨.c, by decide, matters⟩
  | cxx => exact ⟨.cxx, by decide, matters⟩
  | cAndCxx =>
      by_cases forC : settings.isEmptyFor .c = false
      · exact ⟨.c, by decide, forC⟩
      · refine ⟨.cxx, by decide, ?_⟩
        simp only [isEmptyFor, hasStandard] at matters forC ⊢
        simp_all

theorem isEmptyFor_of_standard {settings : Abstractions} {language : Language}
    (set : settings.standard language ≠ "") : settings.isEmptyFor language = false := by
  cases language with
  | c => simp_all [standard, isEmptyFor, hasStandard]
  | cxx => simp_all [standard, isEmptyFor, hasStandard]
  | _ => exact absurd rfl set

theorem isEmptyForAll_eq_false {settings : Abstractions} {languages : List Language} :
    settings.isEmptyForAll languages = false ↔
      ∃ language ∈ languages, settings.isEmptyFor language = false := by
  simp [isEmptyForAll]

theorem isEmptyForAll_of_singles {settings : Abstractions} {language : Language}
    {languages : List Language} (matters : settings.isEmptyFor language = false)
    (covered : ∀ single ∈ language.singles, single ∈ languages) :
    settings.isEmptyForAll languages = false := by
  rcases exists_single_of_isEmptyFor matters with ⟨single, member, set⟩
  exact isEmptyForAll_eq_false.mpr ⟨single, covered single member, set⟩

end Abstractions

end SolutionLists
