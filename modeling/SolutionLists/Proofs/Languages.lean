import SolutionLists.Proofs.Target.Findings

namespace SolutionLists

/-! The single languages of sources: of a file list, of the groups of a tree, and of
everything that is found out about a context. -/

/-- Whether a file is a source that is compiled in a single language. -/
def File.Speaks (file : File) (language : Language) : Prop :=
  file.isSource = true ∧ file.isTemplate = false ∧ file.language ≠ .all ∧
    language ∈ file.language.singles

/-- The single languages that a file is compiled in. -/
def File.spoken (file : File) : List Language :=
  if file.isSource && !file.isTemplate && file.language ≠ .all then file.language.singles else []

theorem File.mem_spoken {file : File} {language : Language} :
    language ∈ file.spoken ↔ file.Speaks language := by
  unfold spoken Speaks
  cases file.isSource <;> cases file.isTemplate <;> by_cases unknown : file.language = .all <;>
    simp [unknown]

/-- The single languages that a bucket of sources stands for. -/
def Language.known (language : Language) : List Language :=
  if language = .all then [] else language.singles

theorem Language.single_of_known {bucket language : Language}
    (known : language ∈ bucket.known) : language ∈ [Language.asm, .c, .cxx] := by
  revert known
  cases bucket <;> cases language <;> decide

/-! ## File lists -/

theorem sourceLanguages_eq (files : List File) :
    sourceLanguages files = Ordered.append [] (files.flatMap File.spoken) := by
  rw [← Ordered.foldl_append, sourceLanguages]
  congr 1
  funext languages file
  unfold File.spoken
  split <;> rfl

theorem append_sourceLanguages (known : List Language) (files : List File) :
    Ordered.append known (sourceLanguages files) =
      Ordered.append known (files.flatMap File.spoken) := by
  rw [sourceLanguages_eq, Ordered.append_append_left, Ordered.append_nil]

theorem mem_sourceLanguages {files : List File} {language : Language} :
    language ∈ sourceLanguages files ↔ ∃ file ∈ files, file.Speaks language := by
  rw [sourceLanguages_eq, Ordered.mem_append, List.mem_flatMap]
  simp [File.mem_spoken]

/-! ## Groups -/

mutual

/-- The files of a group and of the groups below it. -/
def Group.files : Group → List File
  | ⟨_, options, groups⟩ => options.files ++ Group.allFiles groups

def Group.allFiles : List Group → List File
  | [] => []
  | group :: rest => group.files ++ Group.allFiles rest

end

mutual

theorem Group.files_eq : (group : Group) →
    group.files = group.withBelow.flatMap (·.options.files)
  | ⟨name, options, groups⟩ => by
      rw [Group.files, Group.withBelow, List.flatMap_cons, Group.allFiles_eq groups]

theorem Group.allFiles_eq : (groups : List Group) →
    Group.allFiles groups = (Group.allWithBelow groups).flatMap (·.options.files)
  | [] => rfl
  | group :: rest => by
      rw [Group.allFiles, Group.allWithBelow, List.flatMap_append, Group.files_eq group,
        Group.allFiles_eq rest]

end

mutual

theorem Group.addLanguages_eq (known : List Language) : (group : Group) →
    group.addLanguages known = Ordered.append known (group.files.flatMap File.spoken)
  | ⟨title, options, groups⟩ => by
      rw [Group.addLanguages, Group.addAllLanguages_eq _ groups, append_sourceLanguages,
        Group.files, List.flatMap_append, Ordered.append_append]

theorem Group.addAllLanguages_eq (known : List Language) : (groups : List Group) →
    Group.addAllLanguages known groups =
      Ordered.append known ((Group.allFiles groups).flatMap File.spoken)
  | [] => rfl
  | group :: rest => by
      rw [Group.addAllLanguages, Group.addAllLanguages_eq _ rest,
        Group.addLanguages_eq known group, Group.allFiles, List.flatMap_append,
        Ordered.append_append]

end

theorem mem_subtreeLanguages {files : List File} {groups : List Group} {language : Language} :
    language ∈ subtreeLanguages files groups ↔
      ∃ file ∈ files ++ Group.allFiles groups, file.Speaks language := by
  unfold subtreeLanguages
  rw [List.mem_filter, decide_eq_true_iff, Group.addAllLanguages_eq, Ordered.mem_append,
    mem_sourceLanguages, List.mem_flatMap]
  simp [language.mem_buckets, or_and_right, exists_or, File.mem_spoken]

namespace Target

theorem files_sitesOfGroups {site : Site} (around : List Branch) (start : String)
    (groups : List Group) (member : site ∈ sitesOfGroups around start groups) :
    ∀ file ∈ site.options.files, file ∈ Group.allFiles groups := by
  have listed : site.options ∈ (sitesOfGroups around start groups).map Site.options :=
    List.mem_map_of_mem member
  rw [options_sitesOfGroups] at listed
  rcases List.mem_map.mp listed with ⟨group, built, same⟩
  intro file inside
  rw [Group.allFiles_eq]
  refine List.mem_flatMap.mpr ⟨group, List.mem_of_mem_filter built, ?_⟩
  rw [same]
  exact inside

end Target

/-! ## What the walk finds out -/

def Session.Finding.language? : Session.Finding → Option Language
  | language found => some found
  | _ => none

theorem Session.addLanguage_eq (session : Session) (language : Language) :
    session.addLanguage language =
      { session with languages := Ordered.append session.languages language.known } := by
  rw [addLanguage, Language.known]
  split <;> rfl

theorem Session.languages_note (session : Session) (finding : Session.Finding) :
    (session.note finding).languages =
      finding.language?.elim session.languages fun language =>
        Ordered.append session.languages language.known := by
  cases finding with
  | language language => exact congrArg Session.languages (session.addLanguage_eq language)
  | _ => rfl

namespace Target

variable (setting : Setting) (context : Context)

theorem languages_findings (root : String) (files : List File) :
    (Classification.findings root files).filterMap Session.Finding.language? =
      (files.filter (·.isCompiled)).map (·.language) := by
  rw [Classification.findings, List.filterMap_filterMap, ← List.filterMap_eq_map,
    List.filterMap_filter]
  refine List.filterMap_congr fun file _ => ?_
  unfold Classification.finding? File.isCompiled
  cases template : file.isTemplate with
  | true => simp
  | false => cases role : file.role <;> simp [Session.Finding.language?]

theorem languages_session :
    (Tree.build setting context).session.languages =
      Ordered.append []
        (((context.told setting.root).filterMap Session.Finding.language?).flatMap
          Language.known) := by
  let put := fun (found : List Language) (language : Language) =>
    Ordered.append found language.known
  rw [part_session setting Session.languages _ put context Session.languages_note fun _ => rfl,
    Ordered.foldl_append]

variable {setting context}

theorem languages_site {site : Site} (member : site ∈ context.sites) {file : File}
    (inside : file ∈ site.options.files) (source : file.role = .source)
    (plain : file.isTemplate = false) (known : file.language ≠ .all) :
    ∀ single ∈ file.language.singles, single ∈ (Tree.build setting context).session.languages := by
  intro single ofFile
  have told : .language file.language ∈
      Classification.findings setting.root site.options.files := by
    refine List.mem_filterMap.mpr ⟨file, inside, ?_⟩
    simp [Classification.finding?, plain, source]
  have found : file.language ∈
      (context.told setting.root).filterMap Session.Finding.language? :=
    List.mem_filterMap.mpr ⟨_, findings_site setting member _ told, rfl⟩
  rw [languages_session, Ordered.mem_append]
  refine .inr (List.mem_flatMap.mpr ⟨file.language, found, ?_⟩)
  rwa [Language.known, if_neg known]

end Target

end SolutionLists
