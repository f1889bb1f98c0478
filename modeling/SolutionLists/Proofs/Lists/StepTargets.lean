import SolutionLists.Generation
import SolutionLists.Proofs.Steps.Cycle
import SolutionLists.Proofs.Text

namespace SolutionLists

/-! Which targets the dependencies of the super project name. A command has a target of its
own, and the external project of a context has one for each of its steps. -/

namespace Lists

/-! ## What is written -/

/-- The step that a line about dependencies names. -/
def namedStep? (line : String) : Option String :=
  (Text.stripStart? line "add_dependencies(").or (Text.stripStart? line "  ")

/-- The steps that are written, those that wait and those that they wait for. -/
def namedSteps (lines : Lines) : List String :=
  lines.filterMap namedStep?

theorem namedStep_step (step : String) : namedStep? ("add_dependencies(" ++ step) = some step := by
  rw [namedStep?, Text.stripStart_append]
  rfl

theorem namedStep_dependency (step : String) : namedStep? ("  " ++ step) = some step := by
  have other : Text.stripStart? ("  " ++ step) "add_dependencies(" = none := by
    simp [Text.stripStart?, Text.startsWith]
  rw [namedStep?, other, Text.stripStart_append]
  rfl

theorem namedSteps_dependencyLines (entries : List (String × List String)) :
    namedSteps (dependencyLines entries) = entries.flatMap fun entry => entry.1 :: entry.2 := by
  have ofEntry : ∀ entry : String × List String,
      namedSteps (("add_dependencies(" ++ entry.1) :: Lines.indent "  " entry.2 ++ [")"]) =
        entry.1 :: entry.2 := by
    intro entry
    have waited : (Lines.indent "  " entry.2).filterMap namedStep? = entry.2 := by
      rw [Lines.indent, List.filterMap_map]
      exact (List.filterMap_congr fun step _ => namedStep_dependency step).trans
        List.filterMap_some
    have closing : namedStep? ")" = none := by decide
    rw [namedSteps, List.cons_append, List.filterMap_cons_some (namedStep_step entry.1),
      List.filterMap_append, waited, List.filterMap_cons_none closing, List.filterMap_nil,
      List.append_nil]
  unfold dependencyLines
  split
  case isTrue empty =>
    subst empty
    rfl
  case isFalse =>
    have heading : namedSteps ["", "# Build dependencies"] = [] := by decide
    rw [namedSteps, List.filterMap_append, List.filterMap_flatMap]
    exact (congrArg (· ++ _) heading).trans (List.flatMap_congr fun entry _ => ofEntry entry)

/-- Whether some lines define the target of a command. -/
def DefinesTarget (lines : Lines) (name : String) : Prop :=
  ∃ line ∈ lines, line = "add_custom_target(" ++ name ++ " ALL" ∨
    line = "add_custom_target(" ++ name ++ " ALL DEPENDS " ++ Path.variableReference "OUTPUT" ++
      ")"

instance (lines : Lines) (name : String) : Decidable (DefinesTarget lines name) :=
  inferInstanceAs (Decidable (∃ line ∈ lines, _))

theorem definesTarget_executeCommands {executes : List Execute} {execute : Execute}
    (member : execute ∈ executes) : DefinesTarget (executeCommands executes) execute.name := by
  have ofCommand : DefinesTarget (executeCommand execute) execute.name := by
    unfold executeCommand commandTarget
    dsimp only
    split
    · exact ⟨_, List.mem_append_right _ List.mem_cons_self, .inl rfl⟩
    · exact ⟨_, List.mem_append_right _ List.mem_cons_self, .inr rfl⟩
  rcases ofCommand with ⟨line, inside, defines⟩
  exact ⟨line, List.mem_flatMap.mpr ⟨execute, member, inside⟩, defines⟩

namespace SuperProject

/-- The list of the external projects, from which the targets of their steps are made. -/
def contextsStatement (project : SuperProject) : Lines :=
  ["set(CONTEXTS"] ++ project.contexts.map (fun context => "  " ++ quoted (projectTarget context.name)) ++
    [")"]

/-- The targets of the steps of all external projects that others may wait for. -/
def stepTargets (project : SuperProject) : List String :=
  project.contexts.flatMap fun context =>
    [Steps.buildStep (projectTarget context.name), Steps.executesStep (projectTarget context.name)]

/-- The lists of the super project hold the list of the external projects, and end in the
commands and what waits for what. -/
theorem superLists_eq (project : SuperProject) : ∃ first lines,
    superLists project = Lines.file first lines ∧ project.contextsStatement <:+: lines ∧
      executeCommands project.executes ++ dependencyLines project.dependencies <:+ lines := by
  refine ⟨_, _, rfl, ?_, ?_⟩
  · have opens : ∀ (front back : Lines), ["set(CONTEXTS"] <:+ front → [")"] <+: back →
        project.contextsStatement <:+:
          front ++ project.contexts.map (fun context => "  " ++ quoted (projectTarget context.name)) ++
            back := by
      rintro front back ⟨start, rfl⟩ ⟨rest, rfl⟩
      exact ⟨start, rest, by simp [contextsStatement]⟩
    refine List.infix_append_of_infix_left (List.infix_append_of_infix_left ?_)
    iterate 5 refine List.infix_append_of_infix_left ?_
    exact opens _ _ ⟨[_, _, _, _, _, _, _, _], rfl⟩ ⟨_, rfl⟩
  · rw [List.append_assoc]
    exact List.suffix_append _ _

end SuperProject

/-! ## Names with spaces -/

theorem space_notMem_projectTarget (name : String) : ' ' ∉ (projectTarget name).toList := by
  rw [projectTarget, String.toList_ofList, List.mem_map]
  rintro ⟨char, _, made⟩
  split at made
  case isTrue => cases made
  case isFalse other => exact other made

theorem projectTarget_eq_self {name : String} (unspaced : ' ' ∉ name.toList) :
    projectTarget name = name := by
  have kept : ∀ char ∈ name.toList, (if char = ' ' then '_' else char) = char := by
    intro char inside
    rw [if_neg]
    rintro rfl
    exact unspaced inside
  rw [projectTarget, List.map_congr_left kept, List.map_id', String.ofList_toList]

/-- Both steps of an external project that others may wait for. -/
def StepOf (name step : String) : Prop :=
  step = Steps.buildStep name ∨ step = Steps.executesStep name

instance (name step : String) : Decidable (StepOf name step) :=
  inferInstanceAs (Decidable (_ ∨ _))

theorem StepOf.space_iff {name step : String} (made : StepOf name step) :
    ' ' ∈ step.toList ↔ ' ' ∈ name.toList := by
  rcases made with rfl | rfl
  · simp [Steps.buildStep]
  · simp [Steps.executesStep]

theorem SuperProject.mem_stepTargets {project : SuperProject} {step : String} :
    step ∈ project.stepTargets ↔
      ∃ context ∈ project.contexts, StepOf (projectTarget context.name) step := by
  simp [stepTargets, StepOf]

theorem SuperProject.stepTargets_iff {project : SuperProject} {context : SuperContext}
    (member : context ∈ project.contexts) {step : String} (made : StepOf context.name step) :
    step ∈ project.stepTargets ↔ ' ' ∉ context.name.toList := by
  rw [mem_stepTargets]
  constructor
  · rintro ⟨other, _, target⟩ spaced
    exact space_notMem_projectTarget other.name (target.space_iff.mp (made.space_iff.mpr spaced))
  · intro unspaced
    refine ⟨context, member, ?_⟩
    rwa [projectTarget_eq_self unspaced]

end Lists

/-! ## The steps of a solution -/

namespace Steps

variable {contexts : List ContextReference} {executes : List Execute}

theorem named_cases {step : String}
    (named : step ∈ (entries contexts executes).flatMap fun entry => entry.1 :: entry.2) :
    (∃ execute ∈ executes, step = execute.name) ∨
      ∃ context ∈ contexts, Lists.StepOf context.name step := by
  have inside : step ∈ all contexts executes := by
    rcases List.mem_flatMap.mp named with ⟨entry, member, mentioned⟩
    have waiting : entry.2 ≠ [] := of_decide_eq_true (List.mem_filter.mp member).2
    rcases List.exists_mem_of_ne_nil _ waiting with ⟨waited, inEntry⟩
    rcases List.mem_cons.mp mentioned with rfl | inEntry
    · exact (mem_all_of_waits (.inl ⟨entry, member, rfl, inEntry⟩)).1
    · exact (mem_all_of_waits (.inl ⟨entry, member, rfl, inEntry⟩)).2
  rcases mem_all.mp inside with ⟨context, known, same⟩ | command | ⟨context, known, same⟩
  · exact .inr ⟨context, known, .inl same⟩
  · exact .inl command
  · exact .inr ⟨context, known, .inr same⟩

theorem dependencies_of_waitless (waitless : ∀ context ∈ contexts, context.dependsOn = []) :
    dependencies contexts [] = .ok [] := by
  have none : entries contexts [] = [] := by
    refine List.filter_eq_nil_iff.mpr fun entry member => ?_
    simp only [ne_eq, decide_not, Bool.not_eq_true', decide_eq_false_iff_not, not_not]
    rcases List.mem_append.mp member with builds | gatherings
    · rw [List.map_nil, List.append_nil] at builds
      rcases List.mem_map.mp builds with ⟨context, known, rfl⟩
      rw [buildEntry, waitless context known]
      rfl
    · rcases List.mem_map.mp gatherings with ⟨context, _, rfl⟩
      rfl
  rw [← none]
  apply dependencies_ok_of_shrinking String.length
  case inEntries =>
    rw [none]
    exact fun _ member => nomatch member
  case behind =>
    intro context _
    simp only [buildStep, executesStep, String.length_append]
    exact Nat.add_lt_add_left (by decide) _

end Steps

namespace ChosenContexts

/-- The commands that can run with the contexts that are there. -/
def commands (chosen : ChosenContexts) : List Execute :=
  (Steps.available (chosen.references.map (·.name)) chosen.solution.index.executes).1

theorem commands_of_none {chosen : ChosenContexts}
    (none : chosen.solution.index.executes = []) : chosen.commands = [] := by
  rw [commands, none, Steps.available]
  simp [Steps.availableNow]

/-- The super project of some contexts whose steps are in order. -/
def superProject (chosen : ChosenContexts) (setup : Setup) (verbose : Bool)
    (dependencies : List (String × List String)) : Lists.SuperProject where
  solution := chosen.solution.index.solution
  contexts := chosen.contexts.map superContext
  executes := chosen.commands
  dependencies
  generator := setup.configuration.generatorName
  verbose

theorem name_of_mem_references {chosen : ChosenContexts} {reference : ContextReference}
    (member : reference ∈ chosen.references) :
    ∃ description ∈ chosen.contexts, reference.name = description.name := by
  rcases List.mem_map.mp member with ⟨description, known, rfl⟩
  exact ⟨description, known, String.append_empty⟩

end ChosenContexts

namespace Generation

/-- The lists of some contexts whose steps are in order. -/
def ofDependencies (setup : Setup) (verbose : Bool) (chosen : ChosenContexts)
    (plans : List (String × ContextPlan)) (dependencies : List (String × List String)) :
    Generation where
  directory := chosen.solution.temporaryDirectory
  contexts := plans.map (·.1)
  files :=
    superFiles chosen.solution.temporaryDirectory setup (Path.forwardSlashes chosen.solution.root)
        (chosen.superProject setup verbose dependencies) ++
      contextFiles chosen.solution.temporaryDirectory plans

theorem ofPlans_eq_ok {setup : Setup} {verbose : Bool} {chosen : ChosenContexts}
    {plans : List (String × ContextPlan)} {generation : Generation} :
    (ofPlans setup verbose chosen plans).result = .ok generation ↔
      ∃ dependencies,
        Steps.dependencies chosen.references chosen.commands = .ok dependencies ∧
        generation = ofDependencies setup verbose chosen plans dependencies := by
  unfold ofPlans ChosenContexts.commands
  dsimp only
  split
  case h_1 error refused => simp [refused]
  case h_2 dependencies accepted =>
    simp only [accepted, Except.ok.injEq, exists_eq_left']
    exact eq_comm

/-- Every step that is named in the dependencies of the super project is a command with a
target of its own, or the step of a context. The external project of a context goes by
another name where there are spaces in that of the context, and the targets of its steps
with it: such a step is named without being a target. -/
theorem dependencies_name_steps (setup : Setup) (verbose : Bool) (chosen : ChosenContexts)
    (plans : List (String × ContextPlan)) {generation : Generation}
    (made : (ofPlans setup verbose chosen plans).result = .ok generation) :
    ∃ dependencies first lines,
      let project := chosen.superProject setup verbose dependencies
      Steps.dependencies chosen.references chosen.commands = .ok dependencies ∧
      (Path.join generation.directory "CMakeLists.txt", Lines.file first lines) ∈
        generation.files ∧
      project.contextsStatement <:+: lines ∧
      Lists.executeCommands project.executes ++ Lists.dependencyLines dependencies <:+ lines ∧
      ∀ step ∈ Lists.namedSteps (Lists.dependencyLines dependencies),
        Lists.DefinesTarget (Lists.executeCommands project.executes) step ∨
          ∃ description ∈ chosen.contexts, Lists.StepOf description.name step ∧
            (step ∈ project.stepTargets ↔ ' ' ∉ description.name.toList) := by
  rcases ofPlans_eq_ok.mp made with ⟨dependencies, accepted, rfl⟩
  rcases (chosen.superProject setup verbose dependencies).superLists_eq with
    ⟨first, lines, text, contexts, steps⟩
  refine ⟨dependencies, first, lines, accepted, ?_, contexts, steps, fun step named => ?_⟩
  · rw [← text]
    exact List.mem_cons_self
  rw [Lists.namedSteps_dependencyLines, (Steps.dependencies_eq_ok accepted).1] at named
  rcases Steps.named_cases named with ⟨execute, member, rfl⟩ | ⟨reference, member, made⟩
  · exact .inl (Lists.definesTarget_executeCommands member)
  · rcases ChosenContexts.name_of_mem_references member with ⟨description, known, same⟩
    rw [same] at made
    have inProject : ChosenContexts.superContext description ∈
        (chosen.superProject setup verbose dependencies).contexts := List.mem_map_of_mem known
    exact .inr ⟨description, known, made, Lists.SuperProject.stepTargets_iff inProject made⟩

private def spacedContexts : ChosenContexts where
  solution := { indexPath := "s.cbuild-idx.yml", root := "/s", index := {}, contexts := [] }
  contexts := [("my app.debug", ["boot"]), ("boot", [])].map fun (name, others) =>
    { reference := { dependsOn := others }, name, path := "", root := "", context := {} }

private theorem spacedContexts_dependencies :
    Steps.dependencies spacedContexts.references spacedContexts.commands =
      .ok [("my app.debug-build", ["boot-build"])] := by
  rw [ChosenContexts.commands_of_none rfl]
  apply Steps.dependencies_ok_of_shrinking String.length
  case inEntries => decide +kernel
  case behind => decide +kernel

theorem dependencies_name_steps_spaced : ∃ generation,
    (ofPlans { roots := ⟨"", ""⟩ } false spacedContexts []).result = .ok generation ∧
    ∃ dependencies,
      let project := spacedContexts.superProject { roots := ⟨"", ""⟩ } false dependencies
      Steps.dependencies spacedContexts.references spacedContexts.commands = .ok dependencies ∧
      ∀ step ∈ Lists.namedSteps (Lists.dependencyLines dependencies),
        Lists.DefinesTarget (Lists.executeCommands project.executes) step ∨
          ∃ description ∈ spacedContexts.contexts, Lists.StepOf description.name step ∧
            (step ∈ project.stepTargets ↔ ' ' ∉ description.name.toList) := by
  have made : (ofPlans { roots := ⟨"", ""⟩ } false spacedContexts []).result = .ok _ :=
    ofPlans_eq_ok.mpr ⟨_, spacedContexts_dependencies, rfl⟩
  rcases dependencies_name_steps { roots := ⟨"", ""⟩ } false spacedContexts [] made with
    ⟨dependencies, _, _, accepted, _, _, _, steps⟩
  exact ⟨_, made, dependencies, accepted, steps⟩

/-- The build of a context with a space in its name waits under a name that is no target. -/
theorem spaced_step_without_target : ∃ dependencies step,
    let project := spacedContexts.superProject { roots := ⟨"", ""⟩ } false dependencies
    Steps.dependencies spacedContexts.references spacedContexts.commands = .ok dependencies ∧
    step ∈ Lists.namedSteps (Lists.dependencyLines dependencies) ∧
    ¬ Lists.DefinesTarget (Lists.executeCommands project.executes) step ∧
    ∀ context ∈ project.contexts, ¬ Lists.StepOf (Lists.projectTarget context.name) step := by
  refine ⟨_, "my app.debug-build", spacedContexts_dependencies, ?_⟩
  unfold ChosenContexts.superProject
  rw [ChosenContexts.commands_of_none rfl]
  decide +kernel

end Generation

end SolutionLists
