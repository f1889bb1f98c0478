import Mathlib.Data.Set.Basic
import SolutionLists.Inheritance

namespace SolutionLists

/-! Which paths a map holds: the list of each bucket and, where order and repetition do not
matter, the set of pairs of a bucket and a path. -/

namespace LanguageMap

/-- The paths of all buckets, each with its bucket. -/
def pairs (paths : LanguageMap) : Set (Language × String) :=
  fun pair => pair.2 ∈ paths.get pair.1

@[simp] theorem mem_pairs {paths : LanguageMap} {pair : Language × String} :
    pair ∈ paths.pairs ↔ pair.2 ∈ paths.get pair.1 := Iff.rfl

theorem get_update (paths : LanguageMap) (language other : Language)
    (change : List String → List String) :
    (paths.update language change).get other =
      if other = language then change (paths.get language) else paths.get other := by
  unfold update get
  rw [get?_set]
  split <;> rfl

theorem get_update_of (paths : LanguageMap) (language other : Language)
    (change : List String → List String) :
    (paths.update language change).get other =
      if language = other then change (paths.get other) else paths.get other := by
  rw [get_update]
  by_cases same : language = other
  · rw [if_pos same, if_pos same.symm, same]
  · rw [if_neg same, if_neg (Ne.symm same)]

theorem mem_toList {paths : LanguageMap} {language : Language} {list : List String} :
    (language, list) ∈ paths.toList ↔ paths.get? language = some list := by
  unfold toList
  rw [List.mem_filterMap]
  constructor
  · rintro ⟨bucket, _, present⟩
    rcases Option.map_eq_some_iff.mp present with ⟨found, atBucket, same⟩
    cases same
    exact atBucket
  · intro present
    exact ⟨language, language.mem_buckets, by rw [present]; rfl⟩

theorem mem_get {paths : LanguageMap} {language : Language} {path : String} :
    path ∈ paths.get language ↔ ∃ list, (language, list) ∈ paths.toList ∧ path ∈ list := by
  simp only [mem_toList, get]
  cases paths.get? language with
  | none => simp
  | some list => simp

theorem flatMap_toList {α : Type} (paths : LanguageMap) {part : Language × List String → List α}
    (nothing : ∀ language, part (language, []) = []) :
    paths.toList.flatMap part =
      Language.buckets.flatMap fun language => part (language, paths.get language) := by
  unfold toList
  induction Language.buckets with
  | nil => rfl
  | cons language rest induction =>
      rw [List.flatMap_cons, ← induction, get, List.filterMap_cons]
      cases paths.get? language with
      | none => exact (congrArg (· ++ _) (nothing language)).symm
      | some list => rfl

theorem flatMap_toList_bucket (paths : LanguageMap) (language : Language) :
    (paths.toList.flatMap fun (bucket, list) => if bucket = language then list else []) =
      paths.get language := by
  rw [flatMap_toList paths fun _ => ite_self []]
  cases language <;> simp [Language.buckets]

theorem get_foldl_append (entries : List (Language × List String)) (paths : LanguageMap)
    (language : Language) :
    (entries.foldl (fun paths (bucket, list) =>
        paths.update bucket (Ordered.append · list)) paths).get language =
      Ordered.append (paths.get language)
        (entries.flatMap fun (bucket, list) => if bucket = language then list else []) := by
  induction entries generalizing paths with
  | nil => rfl
  | cons entry rest induction =>
      rw [List.foldl_cons, induction, get_update, List.flatMap_cons, Ordered.append_append]
      by_cases same : language = entry.1
      · subst same
        simp
      · simp [same, Ne.symm same]

theorem get_appendAll (paths added : LanguageMap) (language : Language) :
    (paths.appendAll added).get language =
      Ordered.append (paths.get language) (added.get language) := by
  rw [appendAll, get_foldl_append, flatMap_toList_bucket]

theorem get_mapLists (paths : LanguageMap) {change : Language → List String → List String}
    (language : Language) (empty : change language [] = []) :
    (paths.mapLists change).get language = change language (paths.get language) := by
  unfold get
  rw [get?_mapLists]
  cases paths.get? language with
  | none => exact empty.symm
  | some list => rfl

theorem get_dropEmpty (paths : LanguageMap) (language : Language) :
    paths.dropEmpty.get language = paths.get language := by
  unfold get
  rw [get?_dropEmpty]
  cases paths.get? language with
  | none => rfl
  | some list =>
      rw [Option.filter_some]
      by_cases empty : list = [] <;> simp [empty]

theorem mem_get_appendAll {paths added : LanguageMap} {language : Language} {path : String} :
    path ∈ (paths.appendAll added).get language ↔
      path ∈ paths.get language ∨ path ∈ added.get language := by
  rw [get_appendAll, Ordered.mem_append]

theorem mem_get_without {paths : LanguageMap} {removed : List String} {language : Language}
    {path : String} :
    path ∈ (paths.without removed).get language ↔
      path ∈ paths.get language ∧ path ∉ removed := by
  rw [without, get_dropEmpty, get_mapLists paths language rfl, Ordered.mem_without]

theorem pairs_without (paths : LanguageMap) (removed : List String) :
    (paths.without removed).pairs = {pair ∈ paths.pairs | pair.2 ∉ removed} := by
  ext pair
  exact mem_get_without

end LanguageMap

namespace ScopeMap

theorem get_update (paths : ScopeMap) (scope other : Scope)
    (change : LanguageMap → LanguageMap) :
    (paths.update scope change).get other =
      if other = scope then change (paths.get scope) else paths.get other := by
  unfold update get
  rw [get?_set]
  split <;> rfl

theorem get_get_update (paths : ScopeMap) (scope otherScope : Scope)
    (language other : Language) (change : List String → List String) :
    ((paths.update scope (·.update language change)).get otherScope).get other =
      if scope = otherScope ∧ language = other then change ((paths.get otherScope).get other)
      else (paths.get otherScope).get other := by
  rw [get_update]
  by_cases same : scope = otherScope
  · subst same
    rw [if_pos rfl, LanguageMap.get_update_of]
    simp
  · rw [if_neg (Ne.symm same), if_neg fun both => same both.1]

/-- What users see: the paths under every scope but the own one. -/
def shownPairs (includes : ScopeMap) : Set (Language × String) :=
  fun pair => ∃ scope, scope ≠ .own ∧ pair ∈ (includes.get scope).pairs

theorem mem_toList {paths : ScopeMap} {scope : Scope} {languages : LanguageMap} :
    (scope, languages) ∈ paths.toList ↔ paths.get? scope = some languages := by
  unfold toList
  rw [List.mem_filterMap]
  constructor
  · rintro ⟨found, _, present⟩
    rcases Option.map_eq_some_iff.mp present with ⟨_, atScope, same⟩
    cases same
    exact atScope
  · intro present
    exact ⟨scope, scope.mem_list, by rw [present]; rfl⟩

theorem mem_shownPairs {includes : ScopeMap} {pair : Language × String} :
    pair ∈ includes.shownPairs ↔
      ∃ entry ∈ includes.toList, entry.1 ≠ .own ∧ pair ∈ entry.2.pairs := by
  constructor
  · rintro ⟨scope, shown, inside⟩
    cases present : includes.get? scope with
    | none => simp [get, present] at inside
    | some languages =>
        rw [get, present] at inside
        exact ⟨(scope, languages), mem_toList.mpr present, shown, inside⟩
  · rintro ⟨⟨scope, languages⟩, member, shown, inside⟩
    refine ⟨scope, shown, ?_⟩
    rw [get, mem_toList.mp member]
    exact inside

end ScopeMap

namespace LanguageMap

theorem mem_get_foldl_appendAll (entries : List (Scope × LanguageMap)) (paths : LanguageMap)
    (language : Language) (path : String) :
    path ∈ (entries.foldl (fun paths (scope, languages) =>
        if scope = .own then paths else paths.appendAll languages) paths).get language ↔
      path ∈ paths.get language ∨
        ∃ entry ∈ entries, entry.1 ≠ .own ∧ path ∈ entry.2.get language := by
  induction entries generalizing paths with
  | nil => simp
  | cons entry rest induction =>
      rw [List.foldl_cons, induction]
      by_cases hidden : entry.1 = .own
      · simp [hidden]
      · simp [hidden, mem_get_appendAll, or_assoc]

theorem mem_get_appendPropagating {paths : LanguageMap} {includes : ScopeMap}
    {language : Language} {path : String} :
    path ∈ (paths.appendPropagating includes).get language ↔
      path ∈ paths.get language ∨ (language, path) ∈ includes.shownPairs := by
  unfold appendPropagating
  rw [mem_get_foldl_appendAll, ScopeMap.mem_shownPairs]
  rfl

theorem pairs_appendPropagating (paths : LanguageMap) (includes : ScopeMap) :
    (paths.appendPropagating includes).pairs = paths.pairs ∪ includes.shownPairs := by
  ext pair
  exact mem_get_appendPropagating

/-! ## Buckets without repetition -/

def Distinct (paths : LanguageMap) : Prop :=
  ∀ language, (paths.get language).Nodup

theorem distinct_empty : empty.Distinct := by
  intro language
  rw [get_empty]
  exact List.nodup_nil

theorem Distinct.foldl_append {paths : LanguageMap} (distinct : paths.Distinct)
    (entries : List (Language × List String)) :
    (entries.foldl (fun paths (bucket, list) =>
      paths.update bucket (Ordered.append · list)) paths).Distinct := by
  intro language
  rw [get_foldl_append]
  exact Ordered.nodup_append (distinct language) _

theorem Distinct.appendAll {paths : LanguageMap} (distinct : paths.Distinct)
    (added : LanguageMap) : (paths.appendAll added).Distinct :=
  distinct.foldl_append added.toList

theorem Distinct.appendPropagating {paths : LanguageMap} (distinct : paths.Distinct)
    (includes : ScopeMap) : (paths.appendPropagating includes).Distinct := by
  have kept : ∀ (entries : List (Scope × LanguageMap)) (paths : LanguageMap), paths.Distinct →
      (entries.foldl (fun paths (scope, languages) =>
        if scope = .own then paths else paths.appendAll languages) paths).Distinct := by
    intro entries
    induction entries with
    | nil => exact fun _ distinct => distinct
    | cons entry rest induction =>
        intro paths distinct
        rw [List.foldl_cons]
        apply induction
        dsimp only
        split
        · exact distinct
        · exact distinct.appendAll entry.2
  exact kept includes.toList paths distinct

theorem get_shareCommon (paths : LanguageMap) (first second shared language : Language) :
    let common := Ordered.common (paths.get first) (paths.get second)
    let grown :=
      if language = shared then Ordered.append (paths.get shared) common else paths.get language
    (paths.shareCommon first second shared).get language =
      if language = first ∨ language = second then Ordered.without grown common else grown := by
  intro common grown
  by_cases nothing : common = []
  · have same : grown = paths.get language := by
      unfold grown
      rw [nothing]
      split
      case isTrue here => rw [here, Ordered.append_nil]
      case isFalse => rfl
    have whole : Ordered.without grown [] = grown := List.filter_eq_self.mpr (by simp)
    rw [shareCommon, if_pos nothing, nothing, whole, ite_self, same]
  · rw [shareCommon, if_neg nothing, get_mapLists _ _ (by split <;> rfl), get_update]

theorem get_factor (paths : LanguageMap) (language : Language) :
    let shared := (paths.shareCommon .c .cxx .cAndCxx).shareCommon .asm .cAndCxx .all
    paths.factor.get language =
      if language = .all then shared.get language
      else Ordered.without (shared.get language) (shared.get .all) := by
  intro shared
  rw [factor, get_dropEmpty, get_mapLists _ _ (by split <;> rfl)]

theorem Distinct.shareCommon {paths : LanguageMap} (distinct : paths.Distinct)
    (first second shared : Language) : (paths.shareCommon first second shared).Distinct := by
  intro language
  have grown : (if language = shared then
      Ordered.append (paths.get shared) (Ordered.common (paths.get first) (paths.get second))
    else paths.get language).Nodup := by
    split
    · exact Ordered.nodup_append (distinct shared) _
    · exact distinct language
  rw [get_shareCommon]
  split
  · exact grown.filter _
  · exact grown

theorem Distinct.factor {paths : LanguageMap} (distinct : paths.Distinct) :
    paths.factor.Distinct := by
  intro language
  have shared := (distinct.shareCommon .c .cxx .cAndCxx).shareCommon .asm .cAndCxx .all
  rw [get_factor]
  split
  · exact shared language
  · exact (shared language).filter _

/-! ## Paths in any bucket -/

def Holds (paths : LanguageMap) (path : String) : Prop :=
  ∃ language, path ∈ paths.get language

theorem holds_appendAll {paths added : LanguageMap} {path : String} :
    (paths.appendAll added).Holds path ↔ paths.Holds path ∨ added.Holds path := by
  simp only [Holds, mem_get_appendAll, exists_or]

theorem holds_without {paths : LanguageMap} {removed : List String} {path : String} :
    (paths.without removed).Holds path ↔ paths.Holds path ∧ path ∉ removed := by
  simp only [Holds, mem_get_without, exists_and_right]

theorem holds_appendPropagating {paths : LanguageMap} {includes : ScopeMap} {path : String} :
    (paths.appendPropagating includes).Holds path ↔
      paths.Holds path ∨ ∃ language, (language, path) ∈ includes.shownPairs := by
  simp only [Holds, mem_get_appendPropagating, exists_or]

theorem Holds.of_shareCommon {paths : LanguageMap} {first second shared : Language}
    {path : String} (held : (paths.shareCommon first second shared).Holds path) :
    paths.Holds path := by
  rcases held with ⟨language, member⟩
  rw [get_shareCommon] at member
  have grown : path ∈ (if language = shared then
      Ordered.append (paths.get shared) (Ordered.common (paths.get first) (paths.get second))
    else paths.get language) := by
    split at member
    · exact (Ordered.mem_without.mp member).1
    · exact member
  split at grown
  · rcases Ordered.mem_append.mp grown with before | common
    · exact ⟨shared, before⟩
    · exact ⟨first, (Ordered.mem_common.mp common).1⟩
  · exact ⟨language, grown⟩

theorem Holds.of_factor {paths : LanguageMap} {path : String} (held : paths.factor.Holds path) :
    paths.Holds path := by
  rcases held with ⟨language, member⟩
  rw [get_factor] at member
  have shared :
      ((paths.shareCommon .c .cxx .cAndCxx).shareCommon .asm .cAndCxx .all).Holds path := by
    refine ⟨language, ?_⟩
    split at member
    · exact member
    · exact (Ordered.mem_without.mp member).1
  exact shared.of_shareCommon.of_shareCommon

end LanguageMap

end SolutionLists
