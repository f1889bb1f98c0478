import SolutionLists.Proofs.Generation.Inputs

namespace SolutionLists.Generation

/-! A run that is repeated. The first one saves its files, and the second one finds all it
reads as it was, so it generates the same texts and has nothing left to save. -/

/-! ## What is written -/

theorem length_contextFiles (directory : String) (plans : List (String × ContextPlan)) :
    (contextFiles directory plans).length = 4 * plans.length := by
  induction plans with
  | nil => rfl
  | cons plan rest induction =>
      have parts : (contextFiles directory (plan :: rest)).length =
          (contextFiles directory rest).length + 4 := rfl
      rw [parts, induction, List.length_cons, Nat.mul_succ]

theorem make_files {tree : FileTree} {setup : Setup} {verbose : Bool} {chosen : ChosenContexts}
    {generation : Generation} (made : (make tree setup verbose chosen).result = .ok generation) :
    generation.contexts = chosen.contexts.map (·.name) ∧
      generation.files.length = 2 + 4 * chosen.contexts.length := by
  simp only [make, Logged.andThen_eq_ok] at made
  rcases made with ⟨catalog, _, plans, planned, made⟩
  have names := ChosenContexts.plans_names planned
  have count : plans.length = chosen.contexts.length := by
    rw [← List.length_map (·.1), names, List.length_map]
  rcases ofPlans_eq_ok.mp made with ⟨dependencies, _, rfl⟩
  refine ⟨names, ?_⟩
  rw [ofDependencies, List.length_append, length_contextFiles, count]
  rfl

variable {tree : FileTree} {indexPath : String} {generation : Generation}

theorem save_eq_ok {summary : Summary}
    (saved : (generation.save tree indexPath).result = .ok summary) :
    (tree.updateAll generation.files).failure = none ∧
      summary.directory = generation.directory ∧ summary.contexts = generation.contexts := by
  unfold save at saved
  dsimp only at saved
  split at saved
  case h_1 => cases saved
  case h_2 none =>
    cases saved
    exact ⟨none, rfl, rfl⟩

theorem save_tree : (generation.save tree indexPath).tree =
    (tree.updateAll generation.files).tree := by
  unfold save
  dsimp only
  split <;> rfl

theorem save_grows (tree : FileTree) (indexPath : String) (generation : Generation) :
    FileTree.Grows (tree.placesOf generation.files) (tree.waysOf generation.files) tree
      (generation.save tree indexPath).tree := by
  rw [save_tree]
  exact FileTree.updateAll_grows generation.files

theorem save_of_read (indexPath : String)
    (held : ∀ file ∈ generation.files, tree.read file.1 = .ok file.2) :
    (generation.save tree indexPath).tree = tree ∧
      (generation.save tree indexPath).deeds = [] ∧
      (generation.save tree indexPath).result = .ok
        { directory := generation.directory
          contexts := generation.contexts
          written := []
          unchanged := generation.files.length } := by
  rcases FileTree.updateAll_of_read held with ⟨same, none, passed⟩
  have nothing : (tree.updateAll generation.files).written = [] := by
    rw [FileTree.Progress.written, none]
    rfl
  unfold save
  dsimp only
  rw [passed, nothing]
  exact ⟨same, none, rfl⟩

/-! ## The second run -/

/-- Whether what is generated keeps apart from what is read for it, and no two files of it
are one. -/
structure Apart (generation : Generation) (tree : FileTree) (setup : Setup)
    (chosen : ChosenContexts) : Prop where
  files : (tree.placesOf generation.files).Nodup
  index : tree.placeOf chosen.solution.indexPath ∉ tree.placesOf generation.files
  descriptions : ∀ reference ∈ chosen.solution.index.contexts,
    tree.Untouched (tree.placesOf generation.files) (tree.waysOf generation.files)
      (Solution.contextPath chosen.solution.root reference)
  configurations : chosen.contexts ≠ [] →
    ∀ place ∈ tree.placesOf generation.files ++ tree.waysOf generation.files,
      place.tail = tree.placeOf setup.roots.compiler → place.head?.any Toolchain.isConfig = true →
      (tree.find? place).isSome = true

instance {setup : Setup} {chosen : ChosenContexts} :
    Decidable (generation.Apart tree setup chosen) :=
  decidable_of_iff (_ ∧ _ ∧ _ ∧ _)
    ⟨fun ⟨files, index, descriptions, configurations⟩ =>
        ⟨files, index, descriptions, configurations⟩,
      fun apart => ⟨apart.files, apart.index, apart.descriptions, apart.configurations⟩⟩

section Growing

variable {last : FileTree} {setup : Setup} {verbose : Bool} {chosen : ChosenContexts}
  (grows : FileTree.Grows (tree.placesOf generation.files) (tree.waysOf generation.files) tree last)
  (apart : generation.Apart tree setup chosen)
include grows apart

theorem Apart.choose_eq {patterns : List String}
    (choice : (ChosenContexts.choose tree indexPath patterns).result = .ok chosen) :
    ChosenContexts.choose last indexPath patterns =
      ChosenContexts.choose tree indexPath patterns := by
  have loaded := ChosenContexts.choose_eq_ok choice
  have index := apart.index
  rw [(Solution.load_eq_ok loaded).1] at index
  have same := Solution.load_of_grows grows loaded index apart.descriptions
  unfold ChosenContexts.choose
  rw [same]

theorem Apart.make_eq (made : (make tree setup verbose chosen).result = .ok generation) :
    make last setup verbose chosen = make tree setup verbose chosen := by
  rcases Logged.andThen_eq_ok.mp made with ⟨catalog, discovered, _⟩
  unfold make
  rw [ChosenContexts.catalog_of_grows grows apart.configurations discovered]

end Growing

theorem run_of_make (tree : FileTree) (setup : Setup) (indexPath : String)
    (options : GenerationOptions) {chosen : ChosenContexts} (keep : options.clean = false)
    (choice : (ChosenContexts.choose tree indexPath options.patterns).result = .ok chosen)
    (made : (make tree setup options.verbose chosen).result = .ok generation) :
    (run tree setup indexPath options).tree = (generation.save tree indexPath).tree ∧
      (run tree setup indexPath options).deeds = (generation.save tree indexPath).deeds ∧
      (run tree setup indexPath options).result = (generation.save tree indexPath).result := by
  cases run_ends tree setup indexPath options keep with
  | early error failed isEarly alone unsettled =>
      exact absurd (make_ok_iff.mp ⟨generation, made⟩) (unsettled chosen choice)
  | saved other again otherChoice remade ends =>
      cases otherChoice.symm.trans choice
      cases remade.symm.trans made
      exact ends

/-- A run that succeeds has entered the files it generates and new directories on the way to
them, and changes nothing else. The files hold their texts then, unless two of them are one.
Where they and the new directories are apart from what is read, another run succeeds as well,
counts all files as unchanged, and leaves everything as it is. -/
theorem second_run_changes_nothing (tree : FileTree) (setup : Setup) (indexPath : String)
    (options : GenerationOptions) (keep : options.clean = false) {summary : Summary}
    (passed : (run tree setup indexPath options).result = .ok summary) :
    let first := run tree setup indexPath options
    let second := run first.tree setup indexPath options
    ∃ chosen generation,
      (ChosenContexts.choose tree indexPath options.patterns).result = .ok chosen ∧
      (make tree setup options.verbose chosen).result = .ok generation ∧
      summary.contexts = chosen.contexts.map (·.name) ∧
      (∀ place ∉ tree.placesOf generation.files,
        first.tree.find? place = tree.find? place ∨
          place ∈ tree.waysOf generation.files ∧ tree.find? place = none ∧
            first.tree.find? place = some .directory) ∧
      ((tree.placesOf generation.files).Nodup →
        ∀ file ∈ generation.files, first.tree.read file.1 = .ok file.2) ∧
      (generation.Apart tree setup chosen →
        second.tree = first.tree ∧ second.deeds = [] ∧
        second.result = .ok
          { summary with written := [], unchanged := 2 + 4 * chosen.contexts.length }) := by
  intro first second
  cases run_ends tree setup indexPath options keep with
  | early error failed =>
      rw [passed] at failed
      cases failed
  | saved chosen generation choice made same =>
      rcases make_files made with ⟨names, count⟩
      have result := same.2.2
      rw [passed] at result
      rcases save_eq_ok result.symm with ⟨complete, directory, contexts⟩
      have firstTree : first.tree = (tree.updateAll generation.files).tree :=
        same.1.trans save_tree
      have grows : FileTree.Grows (tree.placesOf generation.files)
          (tree.waysOf generation.files) tree first.tree :=
        same.1 ▸ save_grows tree indexPath generation
      have held : (tree.placesOf generation.files).Nodup →
          ∀ file ∈ generation.files, first.tree.read file.1 = .ok file.2 :=
        fun once => firstTree ▸ FileTree.read_updateAll once complete
      refine ⟨chosen, generation, choice, made, contexts.trans names, ?_, held, ?_⟩
      · exact fun place outside => grows.find_outside outside
      · intro apart
        have sameChoice := apart.choose_eq grows choice
        have sameLists := apart.make_eq grows made
        rcases save_of_read indexPath (held apart.files) with ⟨unchanged, none, counted⟩
        rcases run_of_make first.tree setup indexPath options keep (sameChoice ▸ choice)
          (sameLists ▸ made) with ⟨tree, deeds, result⟩
        refine ⟨tree.trans unchanged, deeds.trans none, ?_⟩
        rw [result, counted, ← directory, ← contexts, count]

/-! ### Contexts that wait for nothing -/

private def installedSetup : Setup where
  environment := [("GCC_TOOLCHAIN_10_2_0", "/gcc")]
  roots := ⟨"/packs", "etc"⟩

/-- What is generated for a whole solution without commands or dependencies. -/
private def unordered? (tree : FileTree) : Option (ChosenContexts × Generation) := do
  let chosen ← (ChosenContexts.choose tree "s.cbuild-idx.yml" []).result.toOption
  let catalog ← (chosen.catalog tree installedSetup).result.toOption
  let plans ← (ChosenContexts.plans catalog chosen.contexts).result.toOption
  if chosen.solution.index.executes = [] ∧
      ∀ reference ∈ chosen.references, reference.dependsOn = [] then
    some (chosen, ofDependencies installedSetup false chosen plans [])
  else none

private theorem make_of_unordered {tree : FileTree} {chosen : ChosenContexts}
    {generation : Generation} (found : unordered? tree = some (chosen, generation)) :
    (ChosenContexts.choose tree "s.cbuild-idx.yml" []).result = .ok chosen ∧
      (make tree installedSetup false chosen).result = .ok generation := by
  have ok_of_toOption : ∀ {α : Type} {result : Except GenerationError α} {value : α},
      result.toOption = some value → result = .ok value := by
    intro α result value same
    cases result with
    | error => cases same
    | ok => cases same; rfl
  simp only [unordered?, Option.bind_eq_bind, Option.bind_eq_some_iff] at found
  rcases found with ⟨same, choice, catalog, discovered, plans, planned, ready⟩
  split at ready
  case isTrue waitless =>
    cases ready
    have accepted := Steps.dependencies_of_waitless waitless.2
    rw [← ChosenContexts.commands_of_none waitless.1] at accepted
    refine ⟨ok_of_toOption choice, Logged.andThen_eq_ok.mpr ⟨catalog, ok_of_toOption discovered, ?_⟩⟩
    exact Logged.andThen_eq_ok.mpr
      ⟨plans, ok_of_toOption planned, ofPlans_eq_ok.mpr ⟨[], accepted, rfl⟩⟩
  case isFalse => cases ready

/-- Whether lists are generated of which something holds, and saved. -/
private def saves (tree : FileTree) (check : ChosenContexts → Generation → Bool) : Bool :=
  (unordered? tree).any fun (chosen, generation) =>
    check chosen generation && (generation.save tree "s.cbuild-idx.yml").result.toBool

private theorem run_of_saves {tree : FileTree} {check : ChosenContexts → Generation → Bool}
    (saved : saves tree check = true) :
    ∃ chosen generation summary,
      (ChosenContexts.choose tree "s.cbuild-idx.yml" []).result = .ok chosen ∧
      (make tree installedSetup false chosen).result = .ok generation ∧
      (run tree installedSetup "s.cbuild-idx.yml" {}).result = .ok summary ∧
      check chosen generation = true := by
  unfold saves at saved
  cases found : unordered? tree with
  | none =>
      rw [found] at saved
      cases saved
  | some plan =>
      rcases plan with ⟨chosen, generation⟩
      rw [found, Option.any_some, Bool.and_eq_true] at saved
      rcases make_of_unordered found with ⟨choice, made⟩
      rcases run_of_make tree installedSetup "s.cbuild-idx.yml" {} rfl choice made with ⟨_, _, ends⟩
      cases outcome : (generation.save tree "s.cbuild-idx.yml").result with
      | error error =>
          rw [outcome] at saved
          cases saved.2
      | ok summary =>
          exact ⟨chosen, generation, summary, choice, made, ends.trans outcome, saved.1⟩

/-- A solution with descriptions beside its index, and one configuration in `etc`. -/
private def solutionTree (index : String) (descriptions : List (String × String)) : FileTree where
  entries :=
    [(["s.cbuild-idx.yml"], .file index), (["etc"], .directory),
      (["GCC.10.0.0.cmake", "etc"], .file "")] ++
      descriptions.map fun (name, text) => ([name], .file text)

private def contextText (name : String) : String :=
  "build:\n  context: " ++ name ++ "\n  compiler: GCC\n"

private def describedTree : FileTree :=
  solutionTree "build-idx:\n  cbuilds:\n    - cbuild: a.cbuild.yml\n"
    [("a.cbuild.yml", contextText "a")]

theorem second_run_changes_nothing_described :
    ({} : GenerationOptions).clean = false ∧
    let first := run describedTree installedSetup "s.cbuild-idx.yml" {}
    let second := run first.tree installedSetup "s.cbuild-idx.yml" {}
    ∃ (summary : Summary) (chosen : ChosenContexts) (generation : Generation),
      first.result = .ok summary ∧ generation.Apart describedTree installedSetup chosen ∧
      second.tree = first.tree ∧ second.deeds = [] ∧
      second.result = .ok
        { summary with written := [], unchanged := 2 + 4 * chosen.contexts.length } := by
  have saved : saves describedTree (fun chosen generation =>
      decide (generation.Apart describedTree installedSetup chosen)) = true := by
    decide +kernel
  generalize describedTree = tree at saved ⊢
  rcases run_of_saves saved with ⟨chosen, generation, summary, choice, made, passed, apart⟩
  rcases second_run_changes_nothing tree installedSetup "s.cbuild-idx.yml" {} rfl passed
    with ⟨other, again, otherChoice, remade, _, _, _, repeated⟩
  cases otherChoice.symm.trans choice
  cases remade.symm.trans made
  exact ⟨rfl, summary, chosen, generation, passed, of_decide_eq_true apart,
    repeated (of_decide_eq_true apart)⟩

/-! ### Paths alone -/

/-- Whether no path is generated twice and none leads to what is read. -/
structure PathsApart (generation : Generation) (tree : FileTree) (setup : Setup)
    (chosen : ChosenContexts) : Prop where
  paths : (generation.files.map (·.1)).Nodup
  index : tree.placeOf chosen.solution.indexPath ∉ tree.placesOf generation.files
  descriptions : ∀ reference ∈ chosen.solution.index.contexts,
    tree.placeOf (Solution.contextPath chosen.solution.root reference) ∉
      tree.placesOf generation.files
  configurations : ∀ place ∈ tree.placesOf generation.files,
    place.tail ≠ tree.placeOf setup.roots.compiler

instance {setup : Setup} {chosen : ChosenContexts} :
    Decidable (generation.PathsApart tree setup chosen) :=
  decidable_of_iff (_ ∧ _ ∧ _ ∧ _)
    ⟨fun ⟨paths, index, descriptions, configurations⟩ =>
        ⟨paths, index, descriptions, configurations⟩,
      fun apart => ⟨apart.paths, apart.index, apart.descriptions, apart.configurations⟩⟩

/-- A description behind a directory that the run makes on its way elsewhere. -/
private def detouredTree : FileTree :=
  solutionTree "build-idx:\n  tmpdir: new/../out\n  cbuilds:\n    - cbuild: new/../b.cbuild.yml\n"
    [("b.cbuild.yml", "[")]

private def sharedTree : FileTree :=
  solutionTree "build-idx:\n  cbuilds:\n    - cbuild: a.cbuild.yml\n    - cbuild: b.cbuild.yml\n"
    [("a.cbuild.yml", contextText "a"), ("b.cbuild.yml", contextText "b/../a")]

/-- Whether a directory is made that holds nothing generated, and the contexts cannot be
chosen any more. -/
private def isDetour (tree : FileTree) (chosen : ChosenContexts) (generation : Generation) :
    Bool :=
  let saved := (generation.save tree "s.cbuild-idx.yml").tree
  decide (generation.PathsApart tree installedSetup chosen ∧ tree.find? ["new"] = none ∧
      saved.find? ["new"] = some .directory ∧
      ∀ file ∈ generation.files, ¬ FileTree.isWithin ["new"] (tree.placeOf file.1) = true) &&
    !(ChosenContexts.choose saved "s.cbuild-idx.yml" []).result.toBool

/-- Whether two files, by their numbers, lead to one place with different texts. -/
private def isShared (first second : Nat) (tree : FileTree) (chosen : ChosenContexts)
    (generation : Generation) : Bool :=
  decide (generation.PathsApart tree installedSetup chosen) &&
    match generation.files[first]?, generation.files[second]? with
    | some first, some second =>
        decide (tree.placeOf first.1 = tree.placeOf second.1 ∧ first.2 ≠ second.2)
    | _, _ => false

/-- Whether something holds wherever a run succeeds and the paths of what it generates are
apart. -/
def WherePathsApart (claim : FileTree → Setup → String → GenerationOptions → Generation → Prop) :
    Prop :=
  ∀ (tree : FileTree) (setup : Setup) (indexPath : String) (options : GenerationOptions)
    (chosen : ChosenContexts) (generation : Generation) (summary : Summary),
    options.clean = false →
    (ChosenContexts.choose tree indexPath options.patterns).result = .ok chosen →
    (make tree setup options.verbose chosen).result = .ok generation →
    (run tree setup indexPath options).result = .ok summary →
    generation.PathsApart tree setup chosen →
    claim tree setup indexPath options generation

/-- It does not suffice that paths are apart. Another run may fail where the first one has
made directories on the way to a description, these need not hold anything that was
generated, and of two files at one place only one keeps its text. -/
theorem second_run_may_differ :
    ¬ WherePathsApart (fun tree setup indexPath options _ =>
        ∃ again, (run (run tree setup indexPath options).tree setup indexPath options).result =
          .ok again) ∧
    ¬ WherePathsApart (fun tree setup indexPath options generation =>
        ∀ place, tree.find? place = none →
          (run tree setup indexPath options).tree.find? place = some .directory →
          ∃ file ∈ generation.files, FileTree.isWithin place (tree.placeOf file.1) = true) ∧
    ¬ WherePathsApart (fun tree setup indexPath options generation =>
        ∀ file ∈ generation.files,
          (run tree setup indexPath options).tree.read file.1 = .ok file.2) := by
  have detour : saves detouredTree (isDetour detouredTree) = true := by decide +kernel
  have shared : saves sharedTree (isShared 2 6 sharedTree) = true := by decide +kernel
  generalize detouredTree = tree at detour
  generalize sharedTree = other at shared
  rcases run_of_saves detour with ⟨chosen, generation, summary, choice, made, passed, checked⟩
  rcases run_of_make tree installedSetup "s.cbuild-idx.yml" {} rfl choice made with ⟨saved, _⟩
  simp only [isDetour, Bool.and_eq_true, decide_eq_true_iff, Bool.not_eq_true'] at checked
  rcases checked with ⟨⟨apart, absent, present, beside⟩, unchosen⟩
  rw [← saved] at present unchosen
  refine ⟨fun claim => ?_, fun claim => ?_, fun claim => ?_⟩
  · rcases claim tree installedSetup _ {} chosen generation summary rfl choice made passed apart
      with ⟨again, success⟩
    cases run_ends _ installedSetup "s.cbuild-idx.yml" {} rfl with
    | early error failed =>
        rw [success] at failed
        cases failed
    | saved _ _ rechosen =>
        rw [rechosen] at unchosen
        cases unchosen
  · rcases claim tree installedSetup _ {} chosen generation summary rfl choice made passed apart
      _ absent present with ⟨file, member, within⟩
    exact beside file member within
  · rcases run_of_saves shared with ⟨chosen, generation, summary, choice, made, passed, checked⟩
    simp only [isShared, Bool.and_eq_true, decide_eq_true_iff] at checked
    rcases checked with ⟨apart, clash⟩
    have held : ∀ file ∈ generation.files,
        (run other installedSetup "s.cbuild-idx.yml" {}).tree.read file.1 = .ok file.2 :=
      claim other installedSetup _ {} chosen generation summary rfl choice made passed apart
    rw [(run_of_make other installedSetup "s.cbuild-idx.yml" {} rfl choice made).1] at held
    split at clash
    case h_1 first second isFirst isSecond =>
      rcases of_decide_eq_true clash with ⟨place, different⟩
      have grown := save_grows other "s.cbuild-idx.yml" generation
      rw [← grown.placeOf_eq, ← grown.placeOf_eq] at place
      exact different (FileTree.text_eq_of_placeOf_eq place
        (held first (List.mem_of_getElem? isFirst)) (held second (List.mem_of_getElem? isSecond)))
    case h_2 => cases clash

end SolutionLists.Generation
