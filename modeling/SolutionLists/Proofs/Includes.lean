import SolutionLists.Proofs.Classification.Buckets

namespace SolutionLists

/-! The directories that a file list makes visible. A list without a plain source shows all
of them to users; any other one keeps those of private files to itself. -/

def File.isInclude (file : File) : Bool :=
  !file.isTemplate && (file.role = .header || file.role = .includeDirectory)

/-- The directories that a file list shows to users, each with its bucket. -/
def shownDirectories (root : String) (files : List File) : List (Language × String) :=
  (files.filter fun file =>
    file.isInclude && (!files.any (·.isPlainSource) || file.scope ≠ .own)).map fun file =>
      (file.language, Path.anchor root <|
        if file.role = .header then Path.parent file.path else Path.clean file.path)

/-- The directories that a file list keeps to itself. -/
def keptDirectories (root : String) (files : List File) : List (Language × String) :=
  (files.filter fun file =>
    file.isInclude && (files.any (·.isPlainSource) && file.scope = .own)).map fun file =>
      (file.language, Path.anchor root <|
        if file.role = .header then Path.parent file.path else Path.clean file.path)

theorem File.bucket?_eq_includes {interface : Bool} {file : File} {scope : Scope}
    {language : Language} :
    file.bucket? interface = some (.includes scope language) ↔
      file.isInclude = true ∧ Classification.includeScope interface file = scope ∧
        file.language = language := by
  unfold bucket? isInclude Classification.includeScope
  cases file.isTemplate with
  | true => simp
  | false => cases file.role <;> cases file.hasCustomOptions <;> simp

namespace Classification

variable (root : String)

theorem mem_includes_ofFiles {files : List File} {scope : Scope} {pair : Language × String} :
    pair ∈ ((ofFiles root files).includes.get scope).pairs ↔
      ∃ file ∈ files, file.isInclude = true ∧
        includeScope (!files.any (·.isPlainSource)) file = scope ∧
          (file.language, includeDirectory root file) = pair := by
  rcases pair with ⟨language, directory⟩
  rw [LanguageMap.mem_pairs, mem_directories]
  simp only [mem_filed, File.bucket?_eq_includes, Prod.mk.injEq, and_assoc]

theorem shownPairs_ofFiles (files : List File) :
    (ofFiles root files).includes.shownPairs = {pair | pair ∈ shownDirectories root files} := by
  have visible : ∀ file : File,
      includeScope (!files.any (·.isPlainSource)) file ≠ .own ↔
        (!files.any (·.isPlainSource) || file.scope ≠ .own) = true := by
    intro file
    unfold includeScope
    cases files.any (·.isPlainSource) <;> simp
  ext pair
  constructor
  · rintro ⟨scope, shown, inside⟩
    rcases (mem_includes_ofFiles root).mp inside with ⟨file, member, counted, rfl, same⟩
    refine List.mem_map.mpr ⟨file, List.mem_filter.mpr ⟨member, ?_⟩, same⟩
    rw [counted, (visible file).mp shown]
    rfl
  · intro listed
    rcases List.mem_map.mp listed with ⟨file, kept, same⟩
    rcases List.mem_filter.mp kept with ⟨member, parts⟩
    rw [Bool.and_eq_true] at parts
    exact ⟨_, (visible file).mpr parts.2,
      (mem_includes_ofFiles root).mpr ⟨file, member, parts.1, rfl, same⟩⟩

theorem ownPairs_ofFiles (files : List File) :
    ((ofFiles root files).includes.get .own).pairs =
      {pair | pair ∈ keptDirectories root files} := by
  have visible : ∀ file : File,
      includeScope (!files.any (·.isPlainSource)) file = .own ↔
        (files.any (·.isPlainSource) && file.scope = .own) = true := by
    intro file
    unfold includeScope
    cases files.any (·.isPlainSource) <;> simp
  ext pair
  rw [mem_includes_ofFiles]
  simp only [visible, keptDirectories, includeDirectory, Set.mem_ofPred_eq, List.mem_map,
    List.mem_filter, Bool.and_eq_true, and_assoc]

end Classification

/-! ## Directories that are added -/

section Added

variable {root directory : String} {changes : PathChanges}
  (unadded : directory ∉ Path.anchorAll root (changes.add ++ changes.addAsm))
include unadded

theorem not_mem_addedIncludes {language : Language} {list : List String}
    (added : (language, list) ∈ addedIncludes root changes) : directory ∉ list := by
  have kept : list ⊆ Path.anchorAll root (changes.add ++ changes.addAsm) := by
    rw [Path.anchorAll, List.map_append]
    rcases List.mem_append.mp added with assembly | general
    · split at assembly
      · cases assembly
      · cases List.mem_singleton.mp assembly
        exact List.subset_append_right _ _
    · split at general
      · cases general
      · cases List.mem_singleton.mp general
        exact List.subset_append_left _ _
  exact fun listed => unadded (kept listed)

theorem mem_get_added {paths : LanguageMap} {language : Language} :
    directory ∈ ((addedIncludes root changes).foldl (fun languages (language, list) =>
        languages.update language (Ordered.append · list)) paths).get language ↔
      directory ∈ paths.get language := by
  rw [LanguageMap.get_foldl_append, Ordered.mem_append]
  refine or_iff_left fun listed => ?_
  rcases List.mem_flatMap.mp listed with ⟨⟨bucket, list⟩, added, inside⟩
  dsimp only at inside
  split at inside
  · exact not_mem_addedIncludes unadded added inside
  · cases inside

theorem mem_own_mergeIncludes {target : String} {inherited : LanguageMap} {scope other : Scope}
    {classified : ScopeMap} {language : Language} :
    directory ∈
        ((mergeIncludes root target inherited scope classified changes).own.get other).get
          language ↔
      directory ∈ (classified.get other).get language := by
  unfold mergeIncludes
  dsimp only
  split
  · rfl
  · rw [ScopeMap.get_update]
    split
    case isTrue same =>
      rw [same]
      exact mem_get_added unadded
    case isFalse => rfl

theorem shown_own_mergeIncludes {target : String} {inherited : LanguageMap} {scope : Scope}
    {classified : ScopeMap} {language : Language} :
    (language, directory) ∈
        (mergeIncludes root target inherited scope classified changes).own.shownPairs ↔
      (language, directory) ∈ classified.shownPairs :=
  exists_congr fun _ => and_congr_right fun _ => mem_own_mergeIncludes unadded

end Added

/-! ## Directories that are deleted -/

theorem parentIncludes_eq_resolved {target : String} {includes value : LanguageMap}
    {removed : List String} :
    parentIncludes target includes removed = .resolved value ↔
      removed ≠ [] ∧ value = includes.without removed := by
  unfold parentIncludes
  by_cases none : removed = []
  · simp [none]
  · simp [none, eq_comm]

theorem holds_effective_mergeIncludes {root target path : String} {inherited : LanguageMap}
    {scope : Scope} {classified : ScopeMap} {changes : PathChanges} :
    let merged := mergeIncludes root target inherited scope classified changes
    merged.effective.Holds path →
      inherited.Holds path ∨ ∃ language, (language, path) ∈ merged.own.shownPairs := by
  intro merged held
  refine (LanguageMap.holds_appendPropagating.mp held).imp_left fun fromParent => ?_
  change (merged.parent.value inherited).Holds path at fromParent
  cases parent : merged.parent with
  | inherited =>
      rw [parent] at fromParent
      exact fromParent
  | resolved value =>
      rw [parent] at fromParent
      rcases parentIncludes_eq_resolved.mp parent with ⟨-, rfl⟩
      exact (LanguageMap.holds_without.mp fromParent).1

end SolutionLists
