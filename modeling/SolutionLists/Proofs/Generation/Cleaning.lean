import SolutionLists.Proofs.Files.Clearing
import SolutionLists.Proofs.Generation.Inputs

namespace SolutionLists

/-! What is left of the files that a solution is read from once its directories of results
are removed. Where these directories lie is up to the descriptions. -/

namespace Solution

/-- The files that a solution is read from: its index, and the descriptions. -/
def inputs (solution : Solution) : List String :=
  solution.indexPath :: solution.contexts.map (·.path)

variable {tree : FileTree}

theorem isFile_of_readIndex {path : String} {index : BuildIndex}
    (held : readIndex tree path = .ok index) : tree.isFile path = true := by
  unfold readIndex at held
  split at held
  case isTrue =>
    split at held
    case isTrue there => exact there
    case isFalse => cases held
  case isFalse => cases held

theorem isFile_of_readContexts {root : String} {references : List ContextReference}
    {contexts : List ContextDescription}
    (described : (readContexts tree root references).result = .ok contexts) :
    ∀ description ∈ contexts, tree.isFile description.path = true := by
  induction references generalizing contexts with
  | nil =>
      cases described
      exact List.forall_mem_nil _
  | cons reference rest induction =>
      rw [readContexts] at described
      dsimp only at described
      split at described
      case isTrue there =>
        split at described
        case h_1 => cases described
        case h_2 context read =>
          rcases Logged.map_eq_ok.mp described with ⟨others, further, rfl⟩
          exact List.forall_mem_cons.mpr ⟨there, induction further⟩
      case isFalse => exact induction described

theorem isFile_inputs {path : String} {solution : Solution}
    (loaded : (load tree path).result = .ok solution) :
    ∀ input ∈ solution.inputs, tree.isFile input = true := by
  unfold load at loaded
  split at loaded
  case h_1 => cases loaded
  case h_2 index held =>
    rcases Logged.map_eq_ok.mp loaded with ⟨contexts, described, rfl⟩
    refine List.forall_mem_cons.mpr ⟨isFile_of_readIndex held, ?_⟩
    exact List.forall_mem_map.mpr (isFile_of_readContexts described)

/-- A file that the solution was read from is still there with its text where no directory to
remove is its own or one above. It is gone exactly if clearing gets to such a directory. -/
theorem cleaning_takes_enclosed_inputs (tree : FileTree) {indexPath : String}
    {solution : Solution} (loaded : (load tree indexPath).result = .ok solution)
    (contexts : List ContextDescription) :
    let targets := solution.cleanTargets contexts
    let cleaned := (tree.clearAll targets).tree
    ∀ input ∈ solution.inputs, ∃ text, tree.read input = .ok text ∧
      let place := tree.placeOf input
      ((∀ target ∈ targets, FileTree.isWithin (tree.placeOf target) place.tail = false) →
        cleaned.find? place = some (.file text)) ∧
      (cleaned.find? place = some (.file text) ↔ ¬ tree.ClearsAround targets place.tail) ∧
      (cleaned.find? place = none ↔ tree.ClearsAround targets place.tail) := by
  intro targets cleaned input member
  rcases FileTree.isFile_iff.mp (isFile_inputs loaded input member) with ⟨text, held⟩
  have there : tree.find? (tree.placeOf input) = some (.file text) := by
    rcases FileTree.read_eq_ok.mp held with ⟨reached, found⟩
    rw [← FileTree.placeOf_of_look found]
    exact (FileTree.look_eq_ok.mp found).2
  rcases FileTree.find_clearAll targets there with ⟨taken, spared⟩
  refine ⟨text, held, ?_⟩
  intro place
  refine ⟨fun apart => spared (FileTree.not_clearsAround apart), ⟨?_, spared⟩, ?_, taken⟩
  · intro kept around
    rw [taken around] at kept
    cases kept
  · intro gone
    by_contra apart
    rw [spared apart] at gone
    cases gone

/-- A solution in the directory `w`, of which one context is described below, with its
directories of results beside it. -/
private def builtTree (tmp : String) : FileTree where
  entries :=
    [(["w"], .directory),
      (["s.cbuild-idx.yml", "w"],
        .file ("build-idx:\n  tmpdir: " ++ tmp ++ "\n  cbuilds:\n    - cbuild: app/a.cbuild.yml\n")),
      (["app", "w"], .directory),
      (["a.cbuild.yml", "app", "w"],
        .file "build:\n  context: a\n  output-dirs:\n    intdir: ./obj\n    outdir: ../out/a\n"),
      (["a.o", "obj", "app", "w"], .file ""),
      (["obj", "app", "w"], .directory),
      (["out", "w"], .directory),
      (["a", "out", "w"], .directory)]
  workingDirectory := ["w"]

theorem cleaning_takes_enclosed_inputs_built :
    ∃ solution, (load (builtTree "tmp") "s.cbuild-idx.yml").result = .ok solution ∧
      let cleaned := ((builtTree "tmp").clearAll (solution.cleanTargets solution.contexts)).tree
      "/w/app/a.cbuild.yml" ∈ solution.inputs ∧
      (∃ text, cleaned.find? ["a.cbuild.yml", "app", "w"] = some (.file text)) ∧
      cleaned.find? ["a.o", "obj", "app", "w"] = none := by
  have checked : ((load (builtTree "tmp") "s.cbuild-idx.yml").result.toOption.any fun solution =>
      let targets := solution.cleanTargets solution.contexts
      decide ("/w/app/a.cbuild.yml" ∈ solution.inputs) &&
        (targets.all fun target =>
          !FileTree.isWithin ((builtTree "tmp").placeOf target) ["app", "w"]) &&
        decide (((builtTree "tmp").clearAll targets).tree.find? ["a.o", "obj", "app", "w"] =
          none)) = true := by
    decide +kernel
  cases loaded : (load (builtTree "tmp") "s.cbuild-idx.yml").result with
  | error error =>
      rw [loaded] at checked
      cases checked
  | ok solution =>
      rw [loaded] at checked
      simp only [Except.toOption, Option.any_some, Bool.and_eq_true, decide_eq_true_iff,
        List.all_eq_true, Bool.not_eq_true'] at checked
      rcases checked with ⟨⟨listed, apart⟩, gone⟩
      rcases cleaning_takes_enclosed_inputs (builtTree "tmp") loaded solution.contexts
        "/w/app/a.cbuild.yml" listed with ⟨text, -, kept, -⟩
      exact ⟨solution, rfl, listed, ⟨text, kept apart⟩, gone⟩

/-- A solution in the directory `sub` that has its lists written there, by a detour. -/
private def selfNamingTree : FileTree where
  entries :=
    [(["sub"], .directory),
      (["s.cbuild-idx.yml", "sub"], .file "build-idx:\n  tmpdir: ../sub\n")]

/-- Where a solution names its own directory for its lists, cleaning takes the index away. -/
theorem cleaning_may_take_inputs :
    ¬ ∀ (tree : FileTree) (indexPath : String) (patterns : List String)
      (chosen : ChosenContexts),
      (ChosenContexts.choose tree indexPath patterns).result = .ok chosen →
      let targets := chosen.solution.cleanTargets chosen.contexts
      ∀ input ∈ chosen.solution.inputs,
        (tree.clearAll targets).tree.isFile input = true ∧
          ∀ target ∈ targets,
            FileTree.isWithin (tree.placeOf target) (tree.placeOf input).tail = false := by
  intro spared
  let path := "sub/s.cbuild-idx.yml"
  have checked : ((ChosenContexts.choose selfNamingTree path []).result.toOption.any fun chosen =>
      decide (path ∈ chosen.solution.inputs) &&
        !(selfNamingTree.clearAll
          (chosen.solution.cleanTargets chosen.contexts)).tree.isFile path) = true := by
    decide +kernel
  cases choice : (ChosenContexts.choose selfNamingTree path []).result with
  | error error =>
      rw [choice] at checked
      cases checked
  | ok chosen =>
      rw [choice] at checked
      simp only [Except.toOption, Option.any_some, Bool.and_eq_true, decide_eq_true_iff,
        Bool.not_eq_true'] at checked
      rcases checked with ⟨listed, gone⟩
      rw [(spared selfNamingTree path [] chosen choice path listed).1] at gone
      cases gone

end Solution

end SolutionLists
