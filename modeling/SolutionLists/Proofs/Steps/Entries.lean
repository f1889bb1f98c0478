import SolutionLists.Proofs.Ordered
import SolutionLists.Proofs.Steps.Following

namespace SolutionLists.Steps

/-! What each step is listed to wait for: the steps that its declared names stand for, and the
commands that run before everything else. A command names each of them once, however often they
are declared; the build of a context names a step as often as it declares it. -/

variable {contexts : List ContextReference} {executes : List Execute}

/-- Whether a step is a command that always runs and waits for nothing. -/
def RunsFirst (executes : List Execute) (step : String) : Prop :=
  ∃ execute ∈ executes, execute.always = true ∧ execute.dependsOn = [] ∧ execute.name = step

/-- What the build of a context is listed to wait for. -/
structure BuildList (contexts : List ContextReference) (executes : List Execute)
    (context : ContextReference) (steps : List String) : Prop where
  mem : ∀ step, step ∈ steps ↔
    (∃ name ∈ context.dependsOn, StandsFor contexts executes name step) ∨ RunsFirst executes step
  nodup_iff : steps.Nodup ↔ context.dependsOn.Pairwise fun first second =>
    ∀ step, StandsFor contexts executes first step → ¬ StandsFor contexts executes second step

/-- What a command is listed to wait for. -/
structure CommandList (contexts : List ContextReference) (executes : List Execute)
    (execute : Execute) (steps : List String) : Prop where
  mem : ∀ step, step ∈ steps ↔
    (∃ name ∈ execute.dependsOn, StandsFor contexts executes name step) ∨
      (execute.always = false ∧ RunsFirst executes step)
  nodup : steps.Nodup

/-! ## Names and steps -/

theorem runsFirst_iff {step : String} : step ∈ independent executes ↔ RunsFirst executes step := by
  rw [mem_independent]
  simp only [Execute.isIndependent, RunsFirst, Bool.and_eq_true, List.isEmpty_iff, and_assoc]

theorem mem_resolve_iff {names : List String} {step : String} :
    step ∈ resolve (contexts.map (·.name)) executes names ↔
      ∃ name ∈ names, StandsFor contexts executes name step := by
  simp only [mem_resolve, stepOf_eq_some]

theorem nodup_resolve_iff {names : List String} :
    (resolve (contexts.map (·.name)) executes names).Nodup ↔ names.Pairwise fun first second =>
      ∀ step, StandsFor contexts executes first step →
        ¬ StandsFor contexts executes second step := by
  rw [resolve, List.Nodup, List.pairwise_filterMap]
  apply List.Pairwise.iff
  intro first second
  constructor
  · intro differ step found again
    exact differ step (stepOf_eq_some.mpr found) step (stepOf_eq_some.mpr again) rfl
  · rintro apart step found _ again rfl
    exact apart step (stepOf_eq_some.mp found) (stepOf_eq_some.mp again)

/-! ## The entries of builds and commands -/

theorem buildList_buildEntry (context : ContextReference) :
    BuildList contexts executes context
      (buildEntry (contexts.map (·.name)) executes context).2 where
  mem step := by
    rw [mem_buildEntry, BuildWaits, mem_resolve_iff, runsFirst_iff]
  nodup_iff := Ordered.nodup_append_iff.trans nodup_resolve_iff

theorem commandList_executeEntry (execute : Execute) :
    CommandList contexts executes execute
      (executeEntry (contexts.map (·.name)) executes execute).2 where
  mem step := by
    rw [mem_executeEntry, CommandWaits, mem_resolve_iff, runsFirst_iff]
  nodup := by
    have declared := Ordered.nodup_append List.nodup_nil
      (resolve (contexts.map (·.name)) executes execute.dependsOn)
    unfold executeEntry
    dsimp only
    split
    case isTrue => exact declared
    case isFalse => exact Ordered.nodup_append declared _

/-- The steps that are listed are the builds, the commands and what gathers the commands behind
contexts, without those that wait for nothing. Each waits for exactly the steps that its
declared names stand for and for the commands that run before everything else, where it is none
of the commands that always run. None names a step twice, but for the build of a context that
declares the step twice. -/
theorem dependency_lists_repeat_in_builds_alone (contexts : List ContextReference)
    (executes : List Execute) (distinct : (executes.map (·.name)).Nodup)
    {list : List (String × List String)} (passed : dependencies contexts executes = .ok list) :
    (∀ entry ∈ list, entry.2 ≠ []) ∧
      ∃ (builds : ContextReference → List String) (commands : Execute → List String)
        (gatherings : ContextReference → List String),
        list = (contexts.map (fun context => (buildStep context.name, builds context)) ++
          executes.map (fun execute => (execute.name, commands execute)) ++
          contexts.map fun context => (executesStep context.name, gatherings context)).filter
            (·.2 ≠ []) ∧
        (∀ context ∈ contexts, BuildList contexts executes context (builds context)) ∧
        (∀ execute ∈ executes, CommandList contexts executes execute (commands execute)) ∧
        ∀ context ∈ contexts, Gathers executes context.name (gatherings context) := by
  have listed := (dependencies_eq_ok passed).1
  constructor
  · intro entry member
    rw [listed] at member
    exact of_decide_eq_true (List.mem_filter.mp member).2
  · refine ⟨fun context => (buildEntry (contexts.map (·.name)) executes context).2,
      fun execute => (executeEntry (contexts.map (·.name)) executes execute).2,
      fun context => gathered executes context.name, ?_,
      fun context _ => buildList_buildEntry context,
      fun execute _ => commandList_executeEntry execute,
      fun context _ => gathers_gathered distinct context.name⟩
    rw [listed, entries_eq distinct, ← List.filter_append]
    rfl

private def imageContexts : List ContextReference :=
  [{ project := "app", configuration := ".debug", dependsOn := ["boot"] }, { project := "boot" }]

/-- The signing names the same step twice, and the command that runs before everything else. -/
private def imageCommands : List Execute :=
  [{ name := "Clean", always := true }, { name := "Sign", dependsOn := ["boot", "Clean", "boot"] }]

private theorem imageCommands_distinct : (imageCommands.map (·.name)).Nodup := by
  decide +kernel

private theorem imageCommands_dependencies :
    dependencies imageContexts imageCommands = .ok (entries imageContexts imageCommands) := by
  let order := ["Clean", "boot-build", "app.debug-build", "Sign", "boot-executes",
    "app.debug-executes"]
  have gathering : (imageContexts.map fun context =>
      (executesStep context.name, gathered imageCommands context.name)) =
      [("app.debug-executes", ["Clean"]), ("boot-executes", ["Sign", "Clean"])] := by
    cbv
  apply dependencies_ok_of_shrinking order.idxOf
  case inEntries =>
    rw [entries_eq imageCommands_distinct, gathering]
    decide +kernel
  case behind => decide +kernel

theorem dependency_lists_repeat_in_builds_alone_image :
    ∃ list, dependencies imageContexts imageCommands = .ok list ∧
      ∀ entry ∈ list, entry.2 ≠ [] ∧ entry.2.Nodup := by
  rcases dependency_lists_repeat_in_builds_alone imageContexts imageCommands
    imageCommands_distinct imageCommands_dependencies with
    ⟨some, builds, commands, gatherings, listed, built, run, gathers⟩
  refine ⟨_, imageCommands_dependencies, fun entry member => ⟨some entry member, ?_⟩⟩
  rw [listed] at member
  have kinds := (List.mem_filter.mp member).1
  simp only [List.mem_append, List.mem_map] at kinds
  rcases kinds with (⟨context, known, rfl⟩ | ⟨execute, known, rfl⟩) | ⟨context, known, rfl⟩
  · refine (built context known).nodup_iff.mpr ?_
    -- No context declares more than one name.
    simp only [imageContexts, List.mem_cons, List.not_mem_nil, or_false] at known
    rcases known with rfl | rfl
    · exact List.pairwise_singleton _ _
    · exact List.Pairwise.nil
  · exact (run execute known).nodup
  · exact (gathers context known).nodup

private def doubledContexts : List ContextReference :=
  [{ project := "app", configuration := ".debug", dependsOn := ["boot.debug", "boot.debug"] },
    { project := "boot", configuration := ".debug" }]

/-- A build whose context declares another one twice waits for it twice. -/
theorem doubled_declaration_listed_twice :
    ¬ ∀ (contexts : List ContextReference) (executes : List Execute)
      (list : List (String × List String)),
      (contexts.map (·.name) ++ executes.map (·.name)).Nodup →
      dependencies contexts executes = .ok list → ∀ entry ∈ list, entry.2.Nodup := by
  intro once
  have passed : dependencies doubledContexts [] =
      .ok [("app.debug-build", ["boot.debug-build", "boot.debug-build"])] := by
    let order := ["boot.debug-build", "app.debug-build"]
    apply dependencies_ok_of_shrinking order.idxOf
    case inEntries => decide +kernel
    case behind => decide +kernel
  have repeated := once doubledContexts [] _ (by decide +kernel) passed _ List.mem_cons_self
  revert repeated
  decide

end SolutionLists.Steps
