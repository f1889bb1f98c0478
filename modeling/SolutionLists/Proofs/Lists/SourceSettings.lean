import SolutionLists.Proofs.Lists.DefinitionReading
import SolutionLists.Proofs.Target.AssemblySources
import SolutionLists.Proofs.Target.Serving

namespace SolutionLists

/-! What the lists of a context say about the settings of single sources: the options that a
source is given, and the abstractions that the toolchain is asked to turn into options. -/

namespace Lists

/-! ## Statements about sources -/

/-- The options that a file of a context gives a source: the statement about the source, from its
head to its end, with the lines directly in front of it. Besides the options it may list
definitions. -/
inductive SourceOptions (plan : ContextPlan) (list file : String) (front : Lines)
    (options : List String) : Prop
  | intro {definitions : Lines}
      (defines : ∀ line ∈ definitions, "  COMPILE_DEFINITIONS ".toList <+: line.toList)
      (written : plan.Writes list
        (front ++ ["set_source_files_properties(\"" ++ file ++ "\" PROPERTIES"] ++ definitions ++
          ["  COMPILE_OPTIONS \"" ++ ";".intercalate options ++ "\"", ")"]))

/-- The lines that work out the flags of a source in a variable of its language. -/
def optionFlagsLines (start : String) (arguments : List String) : Lines :=
  let flags := start ++ "_OPTIONS_FLAGS"
  ["set(" ++ flags ++ ")",
    "cbuild_set_options_flags(" ++ start ++ " " ++
      " ".intercalate (arguments.map fun argument => "\"" ++ argument ++ "\"") ++ " " ++ flags ++
      ")",
    "separate_arguments(" ++ flags ++ ")"]

/-- The definitions of an assembly source, on one line where there are any. -/
def sourceDefinitions (properties : FileProperties) : Lines :=
  if properties.compileDefinitions = [] then []
  else
    ["  COMPILE_DEFINITIONS " ++ quoted (Define.joinTexts ";" properties.compileDefinitions)]

theorem prefix_of_mem_sourceDefinitions (properties : FileProperties) :
    ∀ line ∈ sourceDefinitions properties,
      "  COMPILE_DEFINITIONS ".toList <+: line.toList := by
  intro line member
  unfold sourceDefinitions at member
  split at member
  · cases member
  · rw [List.mem_singleton.mp member, String.toList_append]
    exact List.prefix_append _ _

theorem flagLines_of_abstractions {properties : FileProperties} {abstractions : Abstractions}
    (own : properties.abstractions = some abstractions) :
    flagLines properties = optionFlagsLines properties.language.variableStart
      (abstractions.optionArguments properties.language) := by
  unfold flagLines optionFlagsLines setOptionsFlags flagVariable quoted
  simp [own, ← String.append_assoc]

/-- What is written about the properties of a source gives it its options, behind the lines that
work out its flags. -/
theorem SourceOptions.of_written {plan : ContextPlan} {list : String} {properties : FileProperties}
    (written : plan.Writes list (sourceFileProperties properties))
    (given : sourceOptions properties ≠ []) :
    SourceOptions plan list properties.file (flagLines properties) (sourceOptions properties) := by
  have head : "set_source_files_properties" ++ "(" ++ (quoted properties.file ++ " PROPERTIES") =
      "set_source_files_properties(\"" ++ properties.file ++ "\" PROPERTIES" := by
    simp [← String.toList_inj, quoted]
  rw [sourceFileProperties_eq, if_neg given, statement, head] at written
  refine .intro (prefix_of_mem_sourceDefinitions properties) (written.of_infix ⟨[], [""], ?_⟩)
  unfold sourceDefinitions Lines.indent quoted
  by_cases none : properties.compileDefinitions = [] <;> simp [none, ← String.append_assoc]

theorem SourceOptions.of_front {plan : ContextPlan} {list file : String} {front : Lines}
    {options : List String} (given : SourceOptions plan list file front options) :
    SourceOptions plan list file [] options := by
  cases given with
  | intro defines written =>
      refine .intro defines (written.of_infix ?_)
      simp only [List.append_assoc]
      exact (List.suffix_append _ _).isInfix

end Lists

namespace Target

/-! ## What is set for a source -/

variable {setting : Setting} {context : Context}

variable (setting) in
theorem compileOptions_withAssemblyDefines (plan : Plan) (file : File)
    (properties : FileProperties) :
    properties.compileOptions <+:
      (withAssemblyDefines setting plan file properties).compileOptions := by
  unfold withAssemblyDefines
  dsimp only
  split
  · exact List.prefix_refl _
  · split
    · exact List.prefix_append _ _
    · exact List.prefix_refl _

variable (setting) in
theorem prefix_compileOptions (plan : Plan) (file : File) :
    file.misc.compileFlags file.language <+: (fileProperties setting plan file).compileOptions := by
  let flags : FileProperties :=
    { file := Path.anchor setting.root file.path
      language := file.language
      compileOptions := file.misc.compileFlags file.language }
  unfold fileProperties
  simp only [apply_ite FileProperties.compileOptions, ite_self]
  split
  · exact compileOptions_withAssemblyDefines setting plan file flags
  · exact List.prefix_refl _

section Stated

variable {root : String} {toolchain : SelectedToolchain} {list : String × List Site}
  (isList : list ∈
    [("groups.cmake", context.groupSites), ("components.cmake", context.componentSites)])
  {site : Site} (member : site ∈ list.2) {file : File} (source : file ∈ site.sources)
include isList member source

/-- The flags of a source with a language of its own are the first of the options that it is
given. -/
theorem flags_stated (flags : file.misc.compileFlags file.language ≠ []) :
    ∃ further, Lists.SourceOptions (ContextPlan.make context root toolchain) list.1
      (Path.anchor root file.path) [] (file.misc.compileFlags file.language ++ further) := by
  let setting : Setting := { root, toolchain := toolchain.name }
  let properties := fileProperties setting (site.plan setting context) file
  rcases prefix_compileOptions setting (site.plan setting context) file with ⟨symbols, options⟩
  have given : properties.compileOptions ≠ [] := by
    rw [← options]
    exact List.append_ne_nil_of_left_ne_nil flags _
  have said := Site.mem_of_buildFile source (mem_buildFile (isEmpty_of_compileOptions given))
  have written := Lists.SourceOptions.of_written
    (writes_site root toolchain isList member said (List.infix_refl _))
    (List.append_ne_nil_of_left_ne_nil given _)
  rw [file_fileProperties, Lists.sourceOptions, ← options, List.append_assoc] at written
  exact ⟨_, written.of_front⟩

/-- Where a source has abstractions of its own, the flags of each source are worked out from what
is set for it, and are among its options. -/
theorem abstractions_stated (own : hasFileAbstractions site.options.files = true)
    {resolved : Abstractions}
    (inherited : resolved = (site.resolved context).inherit file.abstractions)
    (set : resolved.isEmptyFor file.language = false) :
    ∃ options, Lists.SourceOptions (ContextPlan.make context root toolchain) list.1
      (Path.anchor root file.path)
      (Lists.optionFlagsLines file.language.variableStart
        (resolved.optionArguments file.language)) options ∧
      "$\x7b" ++ file.language.variableStart ++ "_OPTIONS_FLAGS\x7d" ∈ options := by
  let setting : Setting := { root, toolchain := toolchain.name }
  have ofPlan : (site.plan setting context).abstractions = site.resolved context :=
    abstractions_plan site
  rw [← ofPlan] at inherited
  subst inherited
  rcases properties_file setting own set with ⟨properties, said, path, language, carried⟩
  have spelled : Path.variableReference (Lists.flagVariable file.language) =
      "$\x7b" ++ file.language.variableStart ++ "_OPTIONS_FLAGS\x7d" := by
    simp [← String.toList_inj, Path.variableReference, Lists.flagVariable]
  have reference : "$\x7b" ++ file.language.variableStart ++ "_OPTIONS_FLAGS\x7d" ∈
      Lists.sourceOptions properties := by
    simp [Lists.sourceOptions, carried, language, spelled]
  have written := Lists.SourceOptions.of_written
    (writes_site root toolchain isList member (Site.mem_of_buildFile source said)
      (List.infix_refl _))
    (List.ne_nil_of_mem reference)
  rw [Lists.flagLines_of_abstractions carried, path, language] at written
  exact ⟨_, written, reference⟩

end Stated

theorem buildFile_misc (plan : Plan) {file : File} (shared : file.language = .cAndCxx)
    (misc : Misc) :
    buildFile setting plan { file with misc } = buildFile setting plan file := by
  have other : File.language { file with misc } = .cAndCxx := shared
  have properties : fileProperties setting plan { file with misc } =
      fileProperties setting plan file := by
    unfold fileProperties
    rw [other, shared]
    rfl
  unfold buildFile
  rw [properties]
  rfl

end Target

open Target

/-- The flags and the language standard of a source are not lost where its language is a single
one: each flag is among the options of the source, and the standard among the arguments that
its flags are worked out from. To a source for C and C++ at once neither is passed. -/
theorem source_settings_kept_for_single_languages (context : Context) (root : String)
    (toolchain : SelectedToolchain) :
    let plan := ContextPlan.make context root toolchain
    let setting : Setting := { root, toolchain := toolchain.name }
    ∀ list ∈ [("groups.cmake", context.groupSites), ("components.cmake", context.componentSites)],
    ∀ site ∈ list.2, ∀ file ∈ site.sources,
      let resolved := (site.resolved context).inherit file.abstractions
      let given := Lists.SourceOptions plan list.1 (Path.anchor root file.path)
      (∀ start, (file.language, start) ∈ [(.asm, "ASM"), (.c, "CC"), (.cxx, "CXX")] →
        (∀ flag, (∀ single ∈ file.language.singles, flag ∈ file.misc.compileFlags single) →
          ∃ options, given [] options ∧ flag ∈ options) ∧
        (hasFileAbstractions site.options.files = true →
          ∀ single ∈ file.language.singles, resolved.standard single ≠ "" →
          ∃ arguments options, given (Lists.optionFlagsLines start arguments) options ∧
            resolved.standard single ∈ arguments ∧
            "$\x7b" ++ start ++ "_OPTIONS_FLAGS\x7d" ∈ options)) ∧
      (file.language = .cAndCxx →
        (∀ misc, buildFile setting (site.plan setting context) { file with misc } =
          buildFile setting (site.plan setting context) file) ∧
        ∀ languageC languageCxx,
          { resolved with languageC, languageCxx }.optionArguments .cAndCxx =
            resolved.optionArguments .cAndCxx) := by
  intro plan setting list isList site member file source resolved given
  constructor
  · intro start single
    have spelled : file.language.singles = [file.language] ∧
        start = file.language.variableStart := by
      simp only [List.mem_cons, List.not_mem_nil, or_false, Prod.mk.injEq] at single
      rcases single with ⟨language, rfl⟩ | ⟨language, rfl⟩ | ⟨language, rfl⟩ <;>
        rw [language] <;> exact ⟨rfl, rfl⟩
    rw [spelled.1, spelled.2]
    constructor
    · intro flag applies
      have inFlags := applies _ List.mem_cons_self
      rcases flags_stated isList member source (List.ne_nil_of_mem inFlags) with
        ⟨further, written⟩
      exact ⟨_, written, List.mem_append_left _ inFlags⟩
    · intro own language isFile set
      rw [List.mem_singleton.mp isFile] at set ⊢
      rcases abstractions_stated isList member source own rfl
        (Abstractions.isEmptyFor_of_standard set) with ⟨options, written, reference⟩
      have last : resolved.standard file.language ∈ resolved.optionArguments file.language := by
        simp [Abstractions.optionArguments]
      exact ⟨_, options, written, last, reference⟩
  · intro shared
    exact ⟨fun misc => buildFile_misc _ shared misc, fun _ _ => rfl⟩

/-- A source with a flag and a language standard of its own. -/
private def settledSource (languageEntry : String) : Context where
  groups :=
    [{ name := "App"
       options :=
         { files :=
             [{ path := "./driver.inc", category := "source", languageEntry
                abstractions := { languageC := "c11" }
                misc := { cAndCxx := ["-Wshadow"] } }] } }]

private def settledToolchain : SelectedToolchain where
  name := "GCC"
  version := { major := 13, minor := 2, patch := 1 }
  root := "/opt/gcc/bin"
  config := "GCC.13.2.1.cmake"

theorem source_settings_kept_for_single_languages_settled :
    let plan := ContextPlan.make (settledSource "c") "app" settledToolchain
    let given := Lists.SourceOptions plan "groups.cmake" (Path.solutionRoot ++ "/app/driver.inc")
    (∃ options, given [] options ∧ "-Wshadow" ∈ options) ∧
    (∃ arguments options, given (Lists.optionFlagsLines "CC" arguments) options ∧
      "c11" ∈ arguments ∧ "$\x7bCC_OPTIONS_FLAGS\x7d" ∈ options) ∧
    ∃ site ∈ (settledSource "c-cpp").groupSites, ∃ file ∈ site.sources, file.language = .cAndCxx ∧
      let setting : Setting := { root := "app", toolchain := "GCC" }
      let nodePlan := site.plan setting (settledSource "c-cpp")
      buildFile setting nodePlan { file with misc := {} } = buildFile setting nodePlan file := by
  intro plan given
  have single : ∃ site ∈ (settledSource "c").groupSites, ∃ file ∈ site.sources,
      file.language = .c ∧ Path.anchor "app" file.path = Path.solutionRoot ++ "/app/driver.inc" ∧
      (∀ single ∈ file.language.singles, "-Wshadow" ∈ file.misc.compileFlags single) ∧
      hasFileAbstractions site.options.files = true ∧
      ((site.resolved (settledSource "c")).inherit file.abstractions).standard .c = "c11" := by
    decide +kernel
  have both : ∃ site ∈ (settledSource "c-cpp").groupSites, ∃ file ∈ site.sources,
      file.language = .cAndCxx := by
    decide +kernel
  rcases single with ⟨site, member, file, source, language, path, applies, own, standard⟩
  have kept := (source_settings_kept_for_single_languages (settledSource "c") "app"
    settledToolchain _ List.mem_cons_self site member file source).1 "CC" (by rw [language]; decide)
  rw [path] at kept
  have abstractions := kept.2 own .c (by rw [language]; decide) (by rw [standard]; decide)
  rw [standard] at abstractions
  refine ⟨kept.1 "-Wshadow" applies, abstractions, ?_⟩
  rcases both with ⟨site, member, file, source, language⟩
  have lost := (source_settings_kept_for_single_languages (settledSource "c-cpp") "app"
    settledToolchain _ List.mem_cons_self site member file source).2 language
  exact ⟨site, member, file, source, language, lost.1 {}⟩

/-- The lists say nothing of the flag and the standard of a source for C and C++ at once. -/
theorem shared_language_loses_settings :
    let context := settledSource "c-cpp"
    let plan := ContextPlan.make context "app" settledToolchain
    (∃ site ∈ context.groupSites, ∃ file ∈ site.sources, file.language = .cAndCxx ∧
      (∀ single ∈ file.language.singles, "-Wshadow" ∈ file.misc.compileFlags single) ∧
      hasFileAbstractions site.options.files = true ∧
      ((site.resolved context).inherit file.abstractions).standard .c = "c11") ∧
    ∀ line ∈ Lists.lines plan.wording plan.tree.directives,
      Text.contains line "-Wshadow" = false ∧ Text.contains line "c11" = false := by
  intro context plan
  refine ⟨by decide +kernel, ?_⟩
  have wording : plan.wording = ⟨"app", [.c, .cxx]⟩ :=
    ContextPlan.wording_of_sorted (by decide +kernel) (by decide)
  rw [wording]
  decide +kernel

end SolutionLists
