import SolutionLists.Proofs.Target.Sources

namespace SolutionLists

/-! The languages of a context are collected twice: ahead of the walk from the description,
and on the walk from the sources that are met. Both come to the same list. -/

namespace Context

theorem flatten_fileLists (context : Context) :
    context.fileLists.flatten = context.files ++ context.constructedFiles := by
  unfold fileLists nodeOptions files
  rw [Group.allFiles_eq]
  simp [List.flatMap_def, Function.comp_def]

theorem languages_eq (context : Context) :
    context.languages =
      Ordered.append [] ((context.files ++ context.constructedFiles).flatMap File.spoken) := by
  have ofComponents : (fun (known : List Language) (component : Component) =>
      Ordered.append known (sourceLanguages component.options.files)) =
        fun known component =>
          Ordered.append known (component.options.files.flatMap File.spoken) := by
    funext known component
    exact append_sourceLanguages known component.options.files
  rw [languages, append_sourceLanguages, ofComponents, Ordered.foldl_append,
    Group.addAllLanguages_eq, files, List.flatMap_append, List.flatMap_append,
    Ordered.append_append, Ordered.append_append, List.flatMap_assoc]

theorem filterMap_told {β : Type} {read? : Session.Finding → Option β}
    (noUsers : ∀ includes, read? (.userIncludes includes) = none)
    (noComponents : ∀ includes, read? (.componentIncludes includes) = none)
    (noLibraries : ∀ files, read? (.libraries files) = none)
    (root : String) (context : Context) :
    (context.told root).filterMap read? =
      (Classification.findings root (context.files ++ context.constructedFiles)).filterMap
        read? := by
  have ofNode : ∀ kind built files, (Target.told root kind built files).filterMap read? =
      (Classification.findings root files).filterMap read? := by
    intro kind built files
    unfold Target.told
    rw [List.filterMap_append]
    cases built <;> cases kind <;> simp [noUsers, noComponents, noLibraries]
  unfold told files
  simp only [List.filterMap_append, List.filterMap_flatMap, Target.toldByGroup,
    Target.toldByComponent, ofNode, Classification.findings, Group.allFiles_eq]

theorem languages_told (root : String) (context : Context) :
    (context.told root).filterMap Session.Finding.language? =
      ((context.files ++ context.constructedFiles).filter (·.isCompiled)).map (·.language) :=
  (filterMap_told (fun _ => rfl) (fun _ => rfl) (fun _ => rfl) root context).trans
    (Target.languages_findings root _)

end Context

namespace Target

variable {setting : Setting} {context : Context}

theorem known_compiled {files : List File}
    (recognised : ∀ file ∈ files, file.isSource = true → file.role = .source) :
    ((files.filter (·.isCompiled)).map (·.language)).flatMap Language.known =
      files.flatMap File.spoken := by
  induction files with
  | nil => rfl
  | cons file rest induction =>
      have later := induction fun other member => recognised other (List.mem_cons_of_mem _ member)
      have here : file.isSource = decide (file.role = .source) :=
        Bool.eq_iff_iff.mpr
          ⟨fun source => decide_eq_true (recognised file List.mem_cons_self source),
            fun role => File.isSource_of_role (of_decide_eq_true role)⟩
      rw [List.flatMap_cons, ← later, List.filter_cons, File.isCompiled, File.spoken, here]
      cases decide (file.role = .source) <;> cases file.isTemplate <;>
        by_cases unknown : file.language = .all <;> simp [unknown, Language.known]

theorem languages_build
    (recognised : ∀ file ∈ context.files ++ context.constructedFiles,
      file.isSource = true → file.role = .source) :
    (Tree.build setting context).session.languages = context.languages := by
  rw [languages_session, context.languages_told, known_compiled recognised,
    context.languages_eq]

theorem single_of_spoken {file : File} {language : Language} (speaks : file.Speaks language) :
    language ∈ [Language.asm, .c, .cxx] := by
  have single := speaks.2.2.2
  have known := speaks.2.2.1
  revert single known
  cases file.language <;> cases language <;> decide

end Target

open Target

/-- Both collections of the languages of a context agree, and hold the languages of every
file list of the context. -/
theorem languages_collected_alike (setting : Setting) (context : Context)
    (recognised : ∀ files ∈ context.fileLists, ∀ file ∈ files,
      file.isSource = true → file.role = .source) :
    let languages := (Tree.build setting context).session.languages
    languages = context.languages ∧
    languages.Nodup ∧
    (∀ language ∈ languages, language ∈ [Language.asm, .c, .cxx]) ∧
    ∀ files ∈ context.fileLists, ∀ language ∈ sourceLanguages files, language ∈ languages := by
  intro languages
  have same : languages = context.languages := by
    refine languages_build fun file inside => ?_
    rw [← Context.flatten_fileLists] at inside
    rcases List.mem_flatten.mp inside with ⟨files, listed, member⟩
    exact recognised files listed file member
  have spoken : ∀ language, language ∈ languages ↔
      ∃ file ∈ context.fileLists.flatten, file.Speaks language := by
    intro language
    rw [same, Context.languages_eq, Ordered.mem_append, Context.flatten_fileLists,
      List.mem_flatMap]
    simp only [List.not_mem_nil, false_or, File.mem_spoken]
  refine ⟨same, ?_, ?_, ?_⟩
  · rw [same, Context.languages_eq]
    exact Ordered.nodup_append List.nodup_nil _
  · intro language found
    rcases (spoken language).mp found with ⟨file, _, speaks⟩
    exact single_of_spoken speaks
  · intro files listed language counted
    rcases mem_sourceLanguages.mp counted with ⟨file, inside, speaks⟩
    exact (spoken language).mpr ⟨file, List.mem_flatten.mpr ⟨files, listed, inside⟩, speaks⟩

/-- A group that is passed over above and below sources in different languages, a component
and a constructed file. -/
private def scatteredSources : Context where
  groups :=
    [{ name := "Outer"
       options := { files := [{ path := "./outer.cpp", category := "source" }] }
       groups :=
         [{ name := "Copied"
            options :=
              { files := [{ path := "./stub.s", category := "sourceAsm", attr := "template" }] } },
           { name := "Inner"
             options := { files := [{ path := "./inner.c", category := "sourceC" }] } }] }]
  components :=
    [{ identifier := "Library"
       options :=
         { files :=
             [{ path := "./library.x", category := "source", languageEntry := "c-cpp" },
               { path := "./library.h", category := "header" }] } }]
  constructedFiles := [{ path := "./start.S", category := "source" }]

theorem languages_collected_alike_scattered :
    (∀ files ∈ scatteredSources.fileLists, ∀ file ∈ files,
      file.isSource = true → file.role = .source) ∧
    (Tree.build ⟨"app", "GCC"⟩ scatteredSources).session.languages =
      scatteredSources.languages ∧
    scatteredSources.languages = [.cxx, .c, .asm] ∧
    ∀ files ∈ scatteredSources.fileLists, ∀ language ∈ sourceLanguages files,
      language ∈ (Tree.build ⟨"app", "GCC"⟩ scatteredSources).session.languages := by
  have recognised : ∀ files ∈ scatteredSources.fileLists, ∀ file ∈ files,
      file.isSource = true → file.role = .source := by decide +kernel
  rcases languages_collected_alike ⟨"app", "GCC"⟩ scatteredSources recognised with
    ⟨same, _, _, held⟩
  exact ⟨recognised, same, by decide +kernel, held⟩

end SolutionLists
