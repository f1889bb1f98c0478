import SolutionLists.Proofs.Lists.SourceSettings
import SolutionLists.Proofs.Path.ToolOption
import SolutionLists.Proofs.Target.References

namespace SolutionLists

/-! Compile flags on their way into the lists of a context. They can be set for the context, for
a group or component, and for a source. -/

namespace Lists

/-- The options that a file of a context gives a target: the statement about the options of the
target, from its head to its end. The options stand language by language, each below a condition;
in front of them stands what another target hands on, behind them what is included beforehand. -/
inductive TargetOptions (plan : ContextPlan) (list target : String)
    (options : List (String × List String)) : Prop
  | intro {scope : String} {front behind : Lines} (visible : scope ∈ ["INTERFACE", "PUBLIC"])
      (handedOn : ∀ line ∈ front, "  $<TARGET_PROPERTY:".toList <+: line.toList)
      (included : ∀ line ∈ behind, "  SHELL:$\x7b_PI\x7d\"".toList <+: line.toList)
      (written : plan.Writes list
        (["target_compile_options(" ++ target ++ " " ++ scope] ++ front ++
          options.flatMap (fun (language, options) => conditionLines language options) ++ behind ++
          [")"]))

/-- The options of the languages of a context, where there are any, in the order of the lists and
under the names of the languages in conditions. -/
def optionRows (spoken : List Language) (options : Language → List String) :
    List (String × List String) :=
  ([(.asm, "ASM"), (.c, "C"), (.cxx, "CXX")].filter fun (language, _) =>
    language ∈ spoken && options language ≠ []).map fun (language, name) => (name, options language)

theorem indent_languageOptions (root : String) (language : Language) (options : List String) :
    Lines.indent "  " (languageOptions root language options) =
      if options.map (Path.anchorOption root) = [] then []
      else conditionLines language.spelling (options.map (Path.anchorOption root)) := by
  unfold languageOptions
  by_cases nothing : options = []
  · rw [if_pos nothing, if_pos (List.map_eq_nil_iff.mpr nothing)]
    rfl
  · rw [if_neg nothing, if_neg (mt List.map_eq_nil_iff.mp nothing), indent_forLanguage]

theorem flatMap_optionRows (root : String) (spoken : List Language)
    (options : Language → List String) :
    Lines.indent "  " (([.asm, .c, .cxx].filter (· ∈ spoken)).flatMap fun language =>
        languageOptions root language (options language)) =
      (optionRows spoken fun language => (options language).map (Path.anchorOption root)).flatMap
        fun (language, options) => conditionLines language options := by
  have rows : [(Language.asm, "ASM"), (.c, "C"), (.cxx, "CXX")] =
      [Language.asm, .c, .cxx].map fun language => (language, language.spelling) := by
    simp [Language.spelling]
  unfold optionRows
  rw [rows, List.filter_map, List.map_map, List.flatMap_map, Lines.indent, List.map_flatMap]
  induction [Language.asm, .c, .cxx] with
  | nil => rfl
  | cons language rest induction =>
      have here := indent_languageOptions root language (options language)
      rw [Lines.indent] at here
      by_cases member : language ∈ spoken <;>
        by_cases nothing : (options language).map (Path.anchorOption root) = [] <;>
        simp_all [Function.comp_def]

theorem prefix_targetProperty (target property : String) :
    "$<TARGET_PROPERTY:".toList <+: (targetProperty target property).toList := by
  unfold targetProperty
  simp only [String.toList_append, List.append_assoc]
  exact List.prefix_append _ _

theorem prefix_of_mem_preIncludeOptions (files : List String) :
    ∀ line ∈ preIncludeOptions files, "SHELL:$\x7b_PI\x7d\"".toList <+: line.toList := by
  intro line member
  rcases List.mem_map.mp member with ⟨file, _, rfl⟩
  have whole : "SHELL:" ++ Path.variableReference "_PI" ++ quoted file =
      "SHELL:$\x7b_PI\x7d\"" ++ (file ++ "\"") := by
    simp [← String.toList_inj, Path.variableReference, quoted]
  rw [whole, String.toList_append]
  exact List.prefix_append _ _

theorem TargetOptions.of_written {plan : ContextPlan} {list target : String} (scope : Scope)
    (visible : scope.spelling ∈ ["INTERFACE", "PUBLIC"]) {root : String} {spoken : List Language}
    (options : Language → List String) (front : Lines) {behind : Lines}
    (handedOn : ∀ line ∈ front, "$<TARGET_PROPERTY:".toList <+: line.toList)
    (included : ∀ line ∈ behind, "SHELL:$\x7b_PI\x7d\"".toList <+: line.toList)
    (written : plan.Writes list
      (statement "target_compile_options" (target ++ " " ++ scope.spelling)
        (Lines.indent "  " (front ++ (([.asm, .c, .cxx].filter (· ∈ spoken)).flatMap
          fun language => languageOptions root language (options language)) ++ behind)))) :
    TargetOptions plan list target
      (optionRows spoken fun language => (options language).map (Path.anchorOption root)) := by
  have indented : ∀ {start whole : String} {lines : Lines}, "  " ++ start = whole →
      (∀ line ∈ lines, start.toList <+: line.toList) →
        ∀ line ∈ Lines.indent "  " lines, whole.toList <+: line.toList := by
    intro start whole lines spelled starts line member
    rcases List.mem_map.mp member with ⟨inner, inside, rfl⟩
    rw [← spelled, String.toList_append, String.toList_append]
    exact (List.prefix_append_right_inj _).mpr (starts inner inside)
  have parts : Lines.indent "  " (front ++ (([.asm, .c, .cxx].filter (· ∈ spoken)).flatMap
      fun language => languageOptions root language (options language)) ++ behind) =
        Lines.indent "  " front ++
          (optionRows spoken fun language => (options language).map
            (Path.anchorOption root)).flatMap
              (fun (language, options) => conditionLines language options) ++
          Lines.indent "  " behind := by
    rw [← flatMap_optionRows]
    simp only [Lines.indent, List.map_append]
  have head : "target_compile_options" ++ "(" ++ (target ++ " " ++ scope.spelling) =
      "target_compile_options(" ++ target ++ " " ++ scope.spelling := by
    simp only [← String.append_assoc]
    rfl
  rw [parts, statement, head] at written
  refine .intro visible (indented (by decide) handedOn) (indented (by decide) included) ?_
  simpa only [List.append_assoc, List.cons_append, List.nil_append] using written

/-- What the toolchain names the variables of a language by that come from the processor. -/
def processorSuffixes : List String :=
  ["_CPU", "_FLAGS", "_SECURE", "_BRANCHPROT", "_BYTE_ORDER"]

theorem anchorOption_processor (root : String) (language : Language) :
    ∀ suffix ∈ processorSuffixes,
      let reference := Path.variableReference (language.variableStart ++ suffix)
      ∀ option ∈ [reference, "SHELL:" ++ reference], Path.anchorOption root option = option := by
  have searched : ∀ suffix ∈ processorSuffixes,
      let reference := Path.variableReference (language.variableStart ++ suffix)
      ∀ option ∈ [reference, "SHELL:" ++ reference],
        Path.splitAtRelative option.toList = none := by
    cases language <;> decide +kernel
  intro suffix listed reference option member
  rw [Path.anchorOption, searched suffix listed option member]

/-- The options of a language are values of variables that come from the processor, then the
flags of the context. -/
theorem exists_globalOptions (context : Context) (language : Language) :
    ∃ processor, globalOptions context language = processor ++ context.misc.compileFlags language ∧
      ∀ option ∈ processor, ∃ suffix ∈ processorSuffixes,
        let reference := Path.variableReference (language.variableStart ++ suffix)
        option ∈ [reference, "SHELL:" ++ reference] := by
  refine ⟨_, rfl, fun option member => ?_⟩
  simp only [processorSuffixes, List.mem_append, List.mem_cons, List.not_mem_nil, or_false,
    List.mem_ite_nil_left, exists_eq_or_imp, exists_eq_left] at member ⊢
  grind

end Lists

open Target

/-- The options of a context go to the target of the context, those of the processor first. -/
theorem targetOptions_context (context : Context) (root : String) (toolchain : SelectedToolchain) :
    let plan := ContextPlan.make context root toolchain
    ∃ processor : Language → List String,
      (∀ language, ∀ option ∈ processor language, ∃ suffix ∈ Lists.processorSuffixes,
        let reference := Path.variableReference (language.variableStart ++ suffix)
        option ∈ [reference, "SHELL:" ++ reference]) ∧
      Lists.TargetOptions plan "CMakeLists.txt" "$\x7bCONTEXT\x7d"
        (Lists.optionRows plan.languages fun language =>
          processor language ++
            (context.misc.compileFlags language).map (Path.anchorOption root)) := by
  intro plan
  choose processor options fromProcessor using Lists.exists_globalOptions context
  have anchored : ∀ language, (Lists.globalOptions context language).map (Path.anchorOption root) =
      processor language ++ (context.misc.compileFlags language).map (Path.anchorOption root) := by
    intro language
    have kept : ∀ option ∈ processor language, Path.anchorOption root option = option := by
      intro option member
      rcases fromProcessor language option member with ⟨suffix, listed, spelled⟩
      exact Lists.anchorOption_processor root language suffix listed option spelled
    rw [options, List.map_append, List.map_congr_left kept, List.map_id']
  have written : plan.Writes "CMakeLists.txt" (Lists.globalCompileOptions plan plan.wording) := by
    refine ContextPlan.writes_target ?_
    rw [Lists.targetLines]
    exact List.infix_append_of_infix_left (List.suffix_append _ _).isInfix
  rw [Lists.globalCompileOptions, ContextPlan.languages_wording_eq] at written
  refine ⟨processor, fromProcessor, ?_⟩
  simp only [← anchored]
  exact .of_written .shared (List.mem_cons_of_mem _ List.mem_cons_self)
    (Lists.globalOptions context) [] (fun _ member => absurd member List.not_mem_nil)
    (Lists.prefix_of_mem_preIncludeOptions _) written

theorem targetOptions_site {context : Context} {root : String} {toolchain : SelectedToolchain}
    {list : String × List Site}
    (isList : list ∈
      [("groups.cmake", context.groupSites), ("components.cmake", context.componentSites)])
    {site : Site} (member : site ∈ list.2)
    (stated : (site.plan { root, toolchain := toolchain.name } context).saysOptions = true) :
    let plan := ContextPlan.make context root toolchain
    Lists.TargetOptions plan list.1 site.target
      (Lists.optionRows plan.languages fun language =>
        (site.options.misc.compileFlags language).map (Path.anchorOption root)) := by
  intro plan
  let nodePlan := site.plan { root, toolchain := toolchain.name } context
  have said : .compileOptions site.target nodePlan.scope (some nodePlan.parent.target)
      site.options.misc nodePlan.files.preIncludeLocal ∈
        site.directives { root, toolchain := toolchain.name } context :=
    plan_directives_subset site (compileOptions_plan stated)
  have written := writes_site root toolchain isList member said (List.infix_refl _)
  rw [Lists.directiveLines, Lists.compileOptions, ContextPlan.languages_wording_eq] at written
  have visible : nodePlan.scope.spelling ∈ ["INTERFACE", "PUBLIC"] := by
    change (if _ then Scope.interface else .shared).spelling ∈ _
    split <;> decide
  have handedOn : ∀ line ∈ [Lists.targetProperty nodePlan.parent.target
      "INTERFACE_COMPILE_OPTIONS"], "$<TARGET_PROPERTY:".toList <+: line.toList := by
    intro line member
    rw [List.mem_singleton.mp member]
    exact Lists.prefix_targetProperty _ _
  exact .of_written nodePlan.scope visible site.options.misc.compileFlags
    [Lists.targetProperty nodePlan.parent.target "INTERFACE_COMPILE_OPTIONS"] handedOn
    (Lists.prefix_of_mem_preIncludeOptions _) written

/-- The flags of a context and those of its groups and components are written with their
relative paths hung on the root. The flags of a source are written as they are, which is
another text for those that have a relative path. -/
theorem flags_anchored_but_for_sources (context : Context) (root : String)
    (toolchain : SelectedToolchain) :
    let plan := ContextPlan.make context root toolchain
    let setting : Setting := { root, toolchain := toolchain.name }
    let anchored := List.map (Path.anchorOption root)
    (∀ flag, Path.anchorOption root flag = flag ↔
      ∀ before path after, ¬ Path.PathIn flag before path after) ∧
    (∃ processor : Language → List String,
      (∀ language, ∀ option ∈ processor language, ∃ suffix ∈ Lists.processorSuffixes,
        let reference := Path.variableReference (language.variableStart ++ suffix)
        option ∈ [reference, "SHELL:" ++ reference]) ∧
      Lists.TargetOptions plan "CMakeLists.txt" "$\x7bCONTEXT\x7d"
        (Lists.optionRows plan.languages fun language =>
          processor language ++ anchored (context.misc.compileFlags language))) ∧
    ∀ list ∈ [("groups.cmake", context.groupSites), ("components.cmake", context.componentSites)],
    ∀ site ∈ list.2,
      ((site.plan setting context).saysOptions = true →
        Lists.TargetOptions plan list.1 site.target
          (Lists.optionRows plan.languages fun language =>
            anchored (site.options.misc.compileFlags language))) ∧
      ∀ file ∈ site.sources, file.misc.compileFlags file.language ≠ [] →
        ∃ further, Lists.SourceOptions plan list.1 (Path.anchor root file.path) []
          (file.misc.compileFlags file.language ++ further) := by
  intro plan setting anchored
  refine ⟨fun flag => Path.anchorOption_eq_self root, targetOptions_context context root toolchain,
    fun list isList site member => ?_⟩
  exact ⟨targetOptions_site isList member, fun file source => flags_stated isList member source⟩

/-- A flag with a relative path at each of the three levels. -/
private def flaggedLevels : Context where
  misc := { c := ["-I./context"] }
  groups :=
    [{ name := "App"
       options :=
         { misc := { cAndCxx := ["-I./group"] }
           files :=
             [{ path := "./driver.c", category := "sourceC"
                misc := { c := ["-I./source"] } }] } }]

private def flaggedToolchain : SelectedToolchain where
  name := "GCC"
  version := { major := 13, minor := 2, patch := 1 }
  root := "/opt/gcc/bin"
  config := "GCC.13.2.1.cmake"

theorem flags_anchored_but_for_sources_levels :
    let plan := ContextPlan.make flaggedLevels "app" flaggedToolchain
    (∃ processor, Lists.TargetOptions plan "CMakeLists.txt" "$\x7bCONTEXT\x7d"
      [("C", processor ++ ["-I" ++ Path.solutionRoot ++ "/app/context"])]) ∧
    Lists.TargetOptions plan "groups.cmake" "Group_App"
      [("C", ["-I" ++ Path.solutionRoot ++ "/app/group"])] ∧
    ∃ further, Lists.SourceOptions plan "groups.cmake" (Path.solutionRoot ++ "/app/driver.c") []
      (["-I./source"] ++ further) := by
  intro plan
  let setting : Setting := { root := "app", toolchain := "GCC" }
  have nodes : ∃ site ∈ flaggedLevels.groupSites, site.target = "Group_App" ∧
      (site.plan setting flaggedLevels).saysOptions = true ∧
      site.options.misc.compileFlags .c = ["-I./group"] ∧
      ∃ file ∈ site.sources, Path.anchor "app" file.path = Path.solutionRoot ++ "/app/driver.c" ∧
        file.misc.compileFlags file.language = ["-I./source"] := by
    decide +kernel
  have spoken : plan.languages = [.c] := by decide +kernel
  have rows : ∀ options : Language → List String, options .c ≠ [] →
      Lists.optionRows plan.languages options = [("C", options .c)] := by
    intro options some
    rw [spoken]
    simp [Lists.optionRows, some]
  rcases nodes with ⟨site, member, target, stated, ofNode, file, source, path, ofFile⟩
  rcases flags_anchored_but_for_sources flaggedLevels "app" flaggedToolchain with
    ⟨-, ⟨processor, -, ofContext⟩, lists⟩
  rcases lists _ List.mem_cons_self site member with ⟨saidOfNode, saidOfFile⟩
  refine ⟨⟨processor .c, ?_⟩, ?_, ?_⟩
  · rw [rows _ (List.append_ne_nil_of_right_ne_nil _ (by decide))] at ofContext
    exact ofContext
  · have said := saidOfNode stated
    rw [target, rows _ (by rw [ofNode]; decide), ofNode] at said
    exact said
  · have said := saidOfFile file source (by rw [ofFile]; decide)
    rw [path, ofFile] at said
    exact said

/-- The relative path in the flag of a source stays relative. -/
theorem source_flag_not_anchored :
    let plan := ContextPlan.make flaggedLevels "app" flaggedToolchain
    let lines := Lists.lines plan.wording plan.tree.directives
    let flag := "-I./source"
    (∃ site ∈ flaggedLevels.groupSites, ∃ file ∈ site.sources,
      flag ∈ file.misc.compileFlags .c) ∧
    Path.anchorOption "app" flag = "-I" ++ Path.solutionRoot ++ "/app/source" ∧
    ["set_source_files_properties(\"" ++ Path.solutionRoot ++ "/app/driver.c\" PROPERTIES",
      "  COMPILE_OPTIONS \"-I./source\"", ")"] <:+: lines ∧
    ∀ line ∈ lines, Text.contains line (Path.anchorOption "app" flag) = false := by
  intro plan lines flag
  have wording : plan.wording = ⟨"app", [.c]⟩ :=
    ContextPlan.wording_of_sorted (by decide +kernel) (by decide)
  have written : lines = Lists.lines ⟨"app", [.c]⟩ plan.tree.directives :=
    congrArg (Lists.lines · plan.tree.directives) wording
  refine ⟨by decide +kernel, by decide, ?_⟩
  rw [written]
  decide +kernel

end SolutionLists
