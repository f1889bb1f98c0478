import SolutionLists.Proofs.Lists.StepTargets

namespace SolutionLists

/-! The stages of a run. The contexts are chosen, then a toolchain is found for each of them,
then their steps are put in order, and files are written after that. -/

namespace Logged

variable {ε α β : Type} {step : Logged ε α} {next : α → Logged ε β}

@[simp] theorem after_result (step : Logged ε α) (log : Log) :
    (step.after log).result = step.result := rfl

theorem andThen_eq_ok {value : β} : (step.andThen next).result = .ok value ↔
    ∃ between, step.result = .ok between ∧ (next between).result = .ok value := by
  unfold andThen
  cases step.result with
  | error error => simp
  | ok between => simp

theorem andThen_eq_error {error : ε} : (step.andThen next).result = .error error ↔
    step.result = .error error ∨
      ∃ between, step.result = .ok between ∧ (next between).result = .error error := by
  unfold andThen
  cases step.result with
  | error error => simp
  | ok between => simp

theorem map_eq_ok {change : α → β} {value : β} : (step.map change).result = .ok value ↔
    ∃ old, step.result = .ok old ∧ change old = value := by
  unfold map
  cases step.result with
  | error error => simp [Except.map]
  | ok old => simp [Except.map]

end Logged

/-- An error that came up before the first file was written or removed. -/
def GenerationError.IsEarly (error : GenerationError) : Prop :=
  ∀ failure, error ≠ .files failure

namespace ChosenContexts

variable {catalog : ToolchainCatalog} {contexts : List ContextDescription}

/-- Whether there is a toolchain for every one of some contexts. -/
def Served (catalog : ToolchainCatalog) (contexts : List ContextDescription) : Prop :=
  ∀ description ∈ contexts, ∃ toolchain,
    catalog.select description.context.compiler = .ok toolchain

theorem plans_ok_iff : (∃ list, (plans catalog contexts).result = .ok list) ↔
    Served catalog contexts := by
  induction contexts with
  | nil => simp [plans, Served]
  | cons description rest induction =>
      rw [Served, List.forall_mem_cons]
      change _ ↔ _ ∧ Served catalog rest
      rw [← induction, plans]
      split
      case h_1 error failed => simp [failed]
      case h_2 toolchain found => simp [found, Logged.map_eq_ok]

theorem plans_names {list : List (String × ContextPlan)}
    (settled : (plans catalog contexts).result = .ok list) :
    list.map (·.1) = contexts.map (·.name) := by
  induction contexts generalizing list with
  | nil =>
      cases settled
      rfl
  | cons description rest induction =>
      unfold plans at settled
      split at settled
      case h_1 => cases settled
      case h_2 =>
        rcases Logged.map_eq_ok.mp settled with ⟨further, found, rfl⟩
        exact congrArg (description.name :: ·) (induction found)

theorem isEarly_of_plans {error : GenerationError}
    (failed : (plans catalog contexts).result = .error error) : error.IsEarly := by
  induction contexts with
  | nil => cases failed
  | cons description rest induction =>
      unfold plans at failed
      split at failed
      case h_1 =>
        cases failed
        exact fun failure same => by cases same
      case h_2 =>
        refine induction ?_
        cases further : (plans catalog rest).result with
        | error other =>
            simp only [Logged.after, Logged.map, further, Except.map] at failed
            exact failed
        | ok list => simp [Logged.after, Logged.map, further, Except.map] at failed

/-- Whether nothing keeps the lists of the chosen contexts from being made. -/
def Settled (chosen : ChosenContexts) (tree : FileTree) (setup : Setup) : Prop :=
  (∃ catalog, (chosen.catalog tree setup).result = .ok catalog ∧
    Served catalog chosen.contexts) ∧
  ∃ dependencies, Steps.dependencies chosen.references chosen.commands = .ok dependencies

theorem isEarly_of_catalog {chosen : ChosenContexts} {tree : FileTree} {setup : Setup}
    {error : GenerationError} (failed : (chosen.catalog tree setup).result = .error error) :
    error.IsEarly := by
  unfold ChosenContexts.catalog at failed
  split at failed
  case isTrue => cases failed
  case isFalse =>
    split at failed
    case h_1 =>
      cases failed
      exact fun failure same => by cases same
    case h_2 => cases failed

theorem isEarly_of_choose {tree : FileTree} {indexPath : String} {patterns : List String}
    {error : GenerationError}
    (failed : (choose tree indexPath patterns).result = .error error) : error.IsEarly := by
  unfold choose at failed
  split at failed
  case h_1 =>
    cases failed
    exact fun failure same => by cases same
  case h_2 =>
    split at failed
    case h_1 =>
      cases failed
      exact fun failure same => by cases same
    case h_2 => cases failed

end ChosenContexts

namespace Generation

variable {tree : FileTree} {setup : Setup} {verbose : Bool} {chosen : ChosenContexts}

theorem isEarly_of_ofPlans {plans : List (String × ContextPlan)} {error : GenerationError}
    (failed : (ofPlans setup verbose chosen plans).result = .error error) : error.IsEarly := by
  unfold ofPlans at failed
  dsimp only at failed
  split at failed
  case h_1 =>
    cases failed
    exact fun failure same => by cases same
  case h_2 => cases failed

theorem make_ok_iff : (∃ generation, (make tree setup verbose chosen).result = .ok generation) ↔
    chosen.Settled tree setup := by
  simp only [make, Logged.andThen_eq_ok]
  constructor
  · rintro ⟨generation, catalog, discovered, plans, planned, made⟩
    rcases ofPlans_eq_ok.mp made with ⟨dependencies, ordered, _⟩
    exact ⟨⟨catalog, discovered, ChosenContexts.plans_ok_iff.mp ⟨plans, planned⟩⟩,
      dependencies, ordered⟩
  · rintro ⟨⟨catalog, discovered, served⟩, dependencies, ordered⟩
    rcases ChosenContexts.plans_ok_iff.mpr served with ⟨plans, planned⟩
    exact ⟨_, catalog, discovered, plans, planned, ofPlans_eq_ok.mpr ⟨_, ordered, rfl⟩⟩

theorem isEarly_of_make {error : GenerationError}
    (failed : (make tree setup verbose chosen).result = .error error) : error.IsEarly := by
  simp only [make, Logged.andThen_eq_error] at failed
  rcases failed with failed | ⟨_, _, failed | ⟨_, _, failed⟩⟩
  · exact ChosenContexts.isEarly_of_catalog failed
  · exact ChosenContexts.isEarly_of_plans failed
  · exact isEarly_of_ofPlans failed

theorem save_error {generation : Generation} {indexPath : String} {error : GenerationError}
    (failed : (generation.save tree indexPath).result = .error error) :
    ∃ failure, error = .files failure := by
  unfold save at failed
  dsimp only at failed
  split at failed
  case h_1 failure _ =>
    cases failed
    exact ⟨failure, rfl⟩
  case h_2 => cases failed

/-- How a run ends: at a stage before the files, which it has left alone then, or with what
comes of saving the files that were made. -/
inductive Ends (tree : FileTree) (setup : Setup) (indexPath : String)
    (options : GenerationOptions) (run : Run) : Prop where
  | early (error : GenerationError) (failed : run.result = .error error)
      (isEarly : error.IsEarly) (alone : run.tree = tree ∧ run.deeds = [])
      (unsettled : ∀ chosen,
        (ChosenContexts.choose tree indexPath options.patterns).result = .ok chosen →
          ¬ chosen.Settled tree setup)
  | saved (chosen : ChosenContexts) (generation : Generation)
      (choice : (ChosenContexts.choose tree indexPath options.patterns).result = .ok chosen)
      (made : (make tree setup options.verbose chosen).result = .ok generation)
      (same : run.tree = (generation.save tree indexPath).tree ∧
        run.deeds = (generation.save tree indexPath).deeds ∧
        run.result = (generation.save tree indexPath).result)

theorem run_ends (tree : FileTree) (setup : Setup) (indexPath : String)
    (options : GenerationOptions) (keep : options.clean = false) :
    Ends tree setup indexPath options (run tree setup indexPath options) := by
  unfold run
  split
  case h_1 log error failed =>
    refine .early error rfl (ChosenContexts.isEarly_of_choose (congrArg Logged.result failed))
      ⟨rfl, rfl⟩ ?_
    intro chosen choice
    rw [failed] at choice
    cases choice
  case h_2 log chosen choice =>
    rw [keep, if_neg Bool.false_ne_true]
    dsimp only
    split
    case h_1 further error failed =>
      have unmade := congrArg Logged.result failed
      refine .early error rfl (isEarly_of_make unmade) ⟨rfl, rfl⟩ ?_
      intro other choiceOther settled
      rw [choice] at choiceOther
      cases choiceOther
      rcases make_ok_iff.mpr settled with ⟨generation, made⟩
      rw [unmade] at made
      cases made
    case h_2 further generation made =>
      exact .saved chosen generation (congrArg Logged.result choice)
        (congrArg Logged.result made) ⟨rfl, rfl, rfl⟩

/-- A run that fails before it writes leaves all files and directories as they were. It
does so where any stage fails for any context, so no files are written for others then. -/
theorem failed_run_leaves_files (tree : FileTree) (setup : Setup) (indexPath : String)
    (options : GenerationOptions) (keep : options.clean = false) :
    (∀ error, (run tree setup indexPath options).result = .error error → error.IsEarly →
      (run tree setup indexPath options).tree = tree ∧
        (run tree setup indexPath options).deeds = []) ∧
    ((∃ error, (run tree setup indexPath options).result = .error error ∧ error.IsEarly) ↔
      ¬ ∃ chosen, (ChosenContexts.choose tree indexPath options.patterns).result = .ok chosen ∧
        chosen.Settled tree setup) := by
  cases run_ends tree setup indexPath options keep with
  | early error failed isEarly alone unsettled =>
      refine ⟨fun _ _ _ => alone, fun _ => ?_, fun _ => ⟨error, failed, isEarly⟩⟩
      rintro ⟨chosen, choice, settled⟩
      exact unsettled chosen choice settled
  | saved chosen generation choice made same =>
      have late : ∀ error, (run tree setup indexPath options).result = .error error →
          ¬ error.IsEarly := by
        intro error failed isEarly
        rw [same.2.2] at failed
        rcases save_error failed with ⟨failure, rfl⟩
        exact isEarly failure rfl
      refine ⟨fun error failed isEarly => absurd isEarly (late error failed), ?_, fun unsettled => ?_⟩
      · rintro ⟨error, failed, isEarly⟩
        exact absurd isEarly (late error failed)
      · exact absurd ⟨chosen, choice, make_ok_iff.mp ⟨generation, made⟩⟩ unsettled

/-- Two contexts, the second of which asks for a toolchain that is not there, beside lists of
an earlier run. -/
private def halfServedTree : FileTree where
  entries :=
    [(["w"], .directory),
      (["s.cbuild-idx.yml", "w"], .file
        "{build-idx: {cbuilds: [{cbuild: a.cbuild.yml}, {cbuild: b.cbuild.yml}]}}"),
      (["a.cbuild.yml", "w"], .file "{build: {context: a, compiler: GCC}}"),
      (["b.cbuild.yml", "w"], .file "{build: {context: b, compiler: AC6}}"),
      (["tmp", "w"], .directory),
      (["CMakeLists.txt", "tmp", "w"], .file "# earlier lists"),
      (["etc", "w"], .directory),
      (["GCC.10.0.0.cmake", "etc", "w"], .file "")]
  workingDirectory := ["w"]

private def gccSetup : Setup where
  environment := [("GCC_TOOLCHAIN_10_2_0", "/gcc")]
  roots := ⟨"/packs", "etc"⟩

theorem failed_run_leaves_files_half_served :
    ({} : GenerationOptions).clean = false ∧
    ∃ name reason, (run halfServedTree gccSetup "s.cbuild-idx.yml" {}).result =
        .error (.toolchain name reason) ∧
      (run halfServedTree gccSetup "s.cbuild-idx.yml" {}).tree = halfServedTree ∧
      (run halfServedTree gccSetup "s.cbuild-idx.yml" {}).deeds = [] := by
  have kind : (match (run halfServedTree gccSetup "s.cbuild-idx.yml" {}).result with
      | .error (.toolchain ..) => true
      | .error _ => false
      | .ok _ => false) = true := by
    decide +kernel
  split at kind
  case h_1 name reason failed =>
    have isEarly : (GenerationError.toolchain name reason).IsEarly := fun _ same => by cases same
    exact ⟨rfl, name, reason, failed, (failed_run_leaves_files halfServedTree gccSetup
      "s.cbuild-idx.yml" {} rfl).1 _ failed isEarly⟩
  all_goals cases kind

end Generation

end SolutionLists
