import SolutionLists.Proofs.Includes
import SolutionLists.Proofs.Target.IncludeStatements

namespace SolutionLists

/-! The include directories of a source with a unit of its own that deletes directories. They
come from three sides: from what its node hands on, from what its node keeps to itself, and
from what the source adds. -/

open Target

/-! ## Directories that are added -/

/-- Whether a directory is added to a bucket: general ones count for C and C++. -/
def PathChanges.Adds (changes : PathChanges) (root : String) (language : Language)
    (directory : String) : Prop :=
  (language = .cAndCxx ∧ directory ∈ Path.anchorAll root changes.add) ∨
    (language = .asm ∧ directory ∈ Path.anchorAll root changes.addAsm)

def File.pathChanges (file : File) : PathChanges where
  add := file.addPath
  addAsm := file.addPathAsm
  delete := file.delPath

variable {root directory : String} {changes : PathChanges} {language : Language}

theorem mem_addedIncludes :
    (∃ list, (language, list) ∈ addedIncludes root changes ∧ directory ∈ list) ↔
      changes.Adds root language directory := by
  have part : ∀ (bucket : Language) (paths : List String),
      (∃ list, (language, list) ∈
          (if paths = [] then [] else [(bucket, Path.anchorAll root paths)]) ∧ directory ∈ list) ↔
        language = bucket ∧ directory ∈ Path.anchorAll root paths := by
    intro bucket paths
    by_cases none : paths = []
    · simp [none, Path.anchorAll]
    · simp [none]
  unfold addedIncludes PathChanges.Adds
  simp only [List.mem_append, or_and_right, exists_or, part, or_comm]

theorem mem_get_foldl_added {paths : LanguageMap} :
    directory ∈ ((addedIncludes root changes).foldl (fun languages (language, list) =>
        languages.update language (Ordered.append · list)) paths).get language ↔
      directory ∈ paths.get language ∨ changes.Adds root language directory := by
  rw [LanguageMap.get_foldl_append, Ordered.mem_append, ← mem_addedIncludes, List.mem_flatMap]
  refine or_congr_right ⟨?_, ?_⟩
  · rintro ⟨⟨bucket, list⟩, added, inside⟩
    dsimp only at inside
    split at inside
    case isTrue same => exact ⟨list, same ▸ added, inside⟩
    case isFalse => cases inside
  · rintro ⟨list, added, inside⟩
    refine ⟨(language, list), added, ?_⟩
    simpa using inside

/-- What a node or source says itself is what its files ask for, and in its scope what it
adds. -/
theorem mem_get_own_mergeIncludes {target : String} {inherited : LanguageMap}
    {scope other : Scope} {classified : ScopeMap} :
    directory ∈
        ((mergeIncludes root target inherited scope classified changes).own.get other).get
          language ↔
      directory ∈ (classified.get other).get language ∨
        (other = scope ∧ changes.Adds root language directory) := by
  unfold mergeIncludes
  dsimp only
  split
  case isTrue none =>
    refine (or_iff_left ?_).symm
    rintro ⟨-, adds⟩
    rcases mem_addedIncludes.mpr adds with ⟨list, added, -⟩
    rw [none] at added
    cases added
  case isFalse =>
    rw [ScopeMap.get_update]
    split
    case isTrue same => rw [mem_get_foldl_added, same, and_iff_right rfl]
    case isFalse apart => rw [or_iff_left fun adds => apart adds.1]

/-! ## Directories that are deleted -/

namespace Target

variable {setting : Setting} {context : Context} {site : Site} {file : File} {scope : Scope}

theorem mem_ownIncludes :
    directory ∈ ((site.plan setting context).ownIncludes.get scope).get language ↔
      scope = .own ∧ (language, directory) ∈ keptDirectories setting.root site.options.files := by
  have kept : (language, directory) ∈ keptDirectories setting.root site.options.files ↔
      directory ∈ ((site.plan setting context).files.includes.get .own).get language := by
    change _ ↔ (language, directory) ∈
      ((Classification.ofFiles setting.root site.options.files).includes.get .own).pairs
    rw [Classification.ownPairs_ofFiles]
    rfl
  rw [kept, Plan.ownIncludes]
  split
  case h_1 languages found =>
    have own : (site.plan setting context).files.includes.get .own = languages := by
      rw [ScopeMap.get, found]
      rfl
    rw [own, ScopeMap.get, ScopeMap.get?_set]
    by_cases here : scope = .own <;> simp [here]
  case h_2 absent =>
    have own : (site.plan setting context).files.includes.get .own = .empty := by
      rw [ScopeMap.get, absent]
      rfl
    rw [own]
    simp

theorem unitStatement_of_deletes (deletes : file.delPath ≠ []) :
    let plan := site.plan setting context
    plan.unitStatement setting file =
      .includeDirectories (unitName site.target file.path) .shared
        (some (.resolved (plan.unitIncludes.without
          (Path.anchorAll setting.root file.delPath))))
        (plan.unitMerged setting file).own := by
  intro plan
  have anchored : Path.anchorAll setting.root file.delPath ≠ [] :=
    fun none => deletes (List.map_eq_nil_iff.mp none)
  have parent : (plan.unitMerged setting file).parent = _ :=
    parentIncludes_eq_resolved.mpr ⟨anchored, rfl⟩
  rw [Plan.unitStatement, parent]
  rfl

theorem includes_unit (member : site ∈ context.sites) (source : file ∈ site.sources)
    (custom : file.hasCustomOptions = true) :
    let plan := site.plan setting context
    (buildFile setting plan file).directives.filter (·.isIncludes) =
        [plan.unitStatement setting file] ∧
      plan.unitStatement setting file ∈ (Tree.build setting context).directives := by
  intro plan
  refine ⟨by rw [includes_file, if_pos custom], ?_⟩
  exact (mem_includes_build rfl).mpr ⟨site, member, .inr ⟨file, source, custom, rfl⟩⟩

end Target

/-- A directory that a source deletes is not among those of the parent that its unit has
written out. What the unit says itself names it where the source adds it, and in the own
scope where its node keeps it, but nowhere else. -/
theorem source_deletions_spare_kept (setting : Setting) (context : Context) :
    ∀ site ∈ context.sites, ∀ file ∈ site.sources, file.hasCustomOptions = true →
      file.delPath ≠ [] →
      ∃ resolved own,
        let statement : Directive := .includeDirectories (unitName site.target file.path) .shared
          (some (.resolved resolved)) own
        (buildFile setting (site.plan setting context) file).directives.filter (·.isIncludes) =
            [statement] ∧
          statement ∈ (Tree.build setting context).directives ∧
          ∀ directory ∈ Path.anchorAll setting.root file.delPath,
            ¬ resolved.Holds directory ∧
            ∀ scope language, directory ∈ (own.get scope).get language ↔
              (scope = .shared ∧ file.pathChanges.Adds setting.root language directory) ∨
              (scope = .own ∧
                (language, directory) ∈ keptDirectories setting.root site.options.files) := by
  intro site member file source custom deletes
  rcases includes_unit member source custom with ⟨only, said⟩
  rw [unitStatement_of_deletes deletes] at only said
  refine ⟨_, _, only, said, ?_⟩
  intro directory deleted
  constructor
  · intro held
    exact (LanguageMap.holds_without.mp held).2 deleted
  · intro scope language
    rw [Plan.unitMerged, mem_get_own_mergeIncludes, mem_ownIncludes, or_comm]
    rfl

/-- A group with a public header, a private one, and a source that deletes one directory. -/
private def deletingSource (deleted : String) : Context where
  groups :=
    [{ name := "App"
       options :=
         { files :=
             [{ path := "./main.c", category := "sourceC" },
               { path := "./inc/a.h", category := "header" },
               { path := "./private/p.h", category := "header", scopeEntry := "private" },
               { path := "./unit.c", category := "sourceC", delPath := [deleted] }] } }]

private def unitSetting : Setting where
  root := "project"
  toolchain := "GCC"

theorem source_deletions_spare_kept_public :
    let context := deletingSource "./inc"
    let directory := Path.solutionRoot ++ "/project/inc"
    ∃ resolved own,
      .includeDirectories "Group_App___unit_c" .shared (some (.resolved resolved)) own ∈
        (Tree.build unitSetting context).directives ∧
      ¬ resolved.Holds directory ∧
      ∀ scope language, directory ∉ (own.get scope).get language := by
  intro context directory
  have unit : ∃ site ∈ context.sites, site.target = "Group_App" ∧
      ((∀ language ∈ Language.buckets,
        (language, directory) ∉ keptDirectories "project" site.options.files) ∧
      ∃ file ∈ site.sources, file.path = "./unit.c" ∧ file.hasCustomOptions = true ∧
        file.delPath = ["./inc"] ∧ file.addPath = [] ∧ file.addPathAsm = []) := by
    decide +kernel
  rcases unit with ⟨site, member, target, unkept, file, source, path, custom, delPath, add, addAsm⟩
  have deletes : file.delPath ≠ [] := by
    rw [delPath]
    exact List.cons_ne_nil _ _
  rcases source_deletions_spare_kept unitSetting context site member file source custom deletes
    with ⟨resolved, own, -, said, removed⟩
  have deleted : directory ∈ Path.anchorAll "project" file.delPath := by
    rw [delPath]
    decide +kernel
  rcases removed directory deleted with ⟨unheld, places⟩
  rw [target, path] at said
  refine ⟨resolved, own, said, unheld, ?_⟩
  intro scope language listed
  rcases (places scope language).mp listed with ⟨-, adds⟩ | ⟨-, kept⟩
  · simp [PathChanges.Adds, File.pathChanges, add, addAsm, Path.anchorAll] at adds
  · exact unkept language language.mem_buckets kept

/-- A unit names the private directory of its node that its source deletes. -/
theorem deleted_directory_kept_by_unit :
    ¬ ∀ (setting : Setting) (context : Context), ∀ site ∈ context.sites, ∀ file ∈ site.sources,
      file.hasCustomOptions = true → file.language ≠ .asm → ∀ resolved own,
        .includeDirectories (unitName site.target file.path) .shared
            (some (.resolved resolved)) own ∈ (Tree.build setting context).directives →
        ∀ directory ∈ Path.anchorAll setting.root file.delPath,
          directory ∉ Path.anchorAll setting.root (file.addPath ++ file.addPathAsm) →
          ¬ resolved.Holds directory ∧
            ∀ scope language, directory ∉ (own.get scope).get language := by
  intro always
  let context := deletingSource "./private"
  let directory := Path.solutionRoot ++ "/project/private"
  let own : ScopeMap := { own := some { all := some [directory] } }
  let statement : Directive := .includeDirectories "Group_App___unit_c" .shared
    (some (.resolved { all := some [Path.solutionRoot ++ "/project/inc"] })) own
  have unit : ∃ site ∈ context.sites, ∃ file ∈ site.sources,
      file.hasCustomOptions = true ∧ file.language ≠ .asm ∧
        unitName site.target file.path = "Group_App___unit_c" ∧
        directory ∈ Path.anchorAll "project" file.delPath ∧
        directory ∉ Path.anchorAll "project" (file.addPath ++ file.addPathAsm) := by
    decide +kernel
  have said : statement ∈ (Tree.build unitSetting context).directives := by decide +kernel
  rcases unit with ⟨site, member, file, source, custom, language, named, deleted, unadded⟩
  rcases always unitSetting context site member file source custom language
    { all := some [Path.solutionRoot ++ "/project/inc"] } own (by rw [named]; exact said)
    directory deleted unadded with ⟨-, nowhere⟩
  exact nowhere .own .all List.mem_cons_self

end SolutionLists
