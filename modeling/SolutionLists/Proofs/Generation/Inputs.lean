import SolutionLists.Proofs.Files.Growth
import SolutionLists.Proofs.Generation.Stages
import SolutionLists.Proofs.Toolchain.Naming

namespace SolutionLists

/-! What a run reads: an index, descriptions, and the names beside the configurations of
toolchains. All of it is read as before in a tree that has grown elsewhere. -/

variable {files directories : List Place} {tree last : FileTree}
  (grows : FileTree.Grows files directories tree last)

/-! ## Files -/

namespace FileTree

instance : LawfulBEq Place := inferInstance

/-- Whether a path leads to what it has led to: nothing is entered there, and where there is
a file, no directory is made on the way to it. -/
structure Untouched (tree : FileTree) (files directories : List Place) (path : String) : Prop where
  place : tree.placeOf path ∉ files
  way : tree.isFileAt (tree.placeOf path) = true →
    ∀ stop ∈ tree.stops path, stop ∈ directories → tree.isDirectoryAt stop = true

instance {path : String} : Decidable (tree.Untouched files directories path) :=
  decidable_of_iff (_ ∧ _)
    ⟨fun ⟨place, way⟩ => ⟨place, way⟩, fun untouched => ⟨untouched.place, untouched.way⟩⟩

include grows

theorem Grows.isFile_eq {path : String} (untouched : tree.Untouched files directories path) :
    last.isFile path = tree.isFile path := by
  cases held : tree.isFile path with
  | false => exact grows.isFile_eq_false_of untouched.place untouched.way held
  | true =>
      rcases isFile_iff.mp held with ⟨text, read⟩
      exact isFile_iff.mpr ⟨text, grows.read_eq_ok_of untouched.place read⟩

theorem Grows.read_eq {path : String} (apart : tree.placeOf path ∉ files)
    (held : tree.isFile path = true) : last.read path = tree.read path := by
  rcases isFile_iff.mp held with ⟨text, read⟩
  rw [read, grows.read_eq_ok_of apart read]

theorem Grows.absolute_eq (path : String) : last.absolute path = tree.absolute path := by
  unfold absolute
  rw [grows.workingDirectory_eq]

theorem Grows.names_eq {path : String} {list : List String} {counts : String → Bool}
    (listed : tree.names path = .ok list)
    (known : ∀ place ∈ files ++ directories, place.tail = tree.placeOf path →
      place.head?.any counts = true → (tree.find? place).isSome = true) :
    ∃ now, last.names path = .ok now ∧ now.filter counts = list.filter counts := by
  rcases names_eq_ok.mp listed with ⟨place, found, rfl⟩
  rcases look_eq_ok.mp found with ⟨walked, there⟩
  rw [← (walk_eq_ok.mp walked).2.2] at known
  have stays : last.isDirectoryAt place = true :=
    grows.isDirectoryAt_of (decide_eq_true there)
  have later := look_eq_ok.mpr ⟨grows.walk_eq_ok_of walked, of_decide_eq_true stays⟩
  exact ⟨_, names_eq_ok.mpr ⟨place, later, rfl⟩, grows.children_eq known⟩

end FileTree

/-! ## Configurations -/

namespace Toolchain

def isConfig (fileName : String) : Bool :=
  (ofFileName? fileName).isSome

theorem filter_mergeSort (counts : String → Bool) (names : List String) :
    (names.mergeSort fun first second => decide (first ≤ second)).filter counts =
      (names.filter counts).mergeSort fun first second => decide (first ≤ second) := by
  have sorted : (names.mergeSort fun first second => decide (first ≤ second)).SortedLE :=
    List.sortedLE_mergeSort
  have permuted := (List.mergeSort_perm names fun first second => decide (first ≤ second)).filter
    counts
  exact (mergeSort_eq_of_perm permuted (sorted.pairwise.filter counts)).symm

theorem configsOf_congr (root : String) {names others : List String}
    (same : names.filter isConfig = others.filter isConfig) :
    configsOf root names = configsOf root others := by
  have configs : ∀ names : List String, configsOf root names =
      ((names.filter isConfig).mergeSort fun first second => decide (first ≤ second)).filterMap
        fun fileName => (ofFileName? fileName).map fun found =>
          { name := found.1
            version := found.2
            path := withoutSeparators root ++ "/" ++ fileName } := by
    intro names
    rw [← filter_mergeSort, List.filterMap_filter, configsOf]
    refine List.filterMap_congr fun fileName _ => ?_
    unfold isConfig
    cases ofFileName? fileName <;> rfl
  rw [configs, configs, same]

end Toolchain

/-! ## Descriptions -/

include grows

namespace Solution

theorem readIndex_of_grows {path : String} {index : BuildIndex}
    (untouched : tree.placeOf path ∉ files) (held : readIndex tree path = .ok index) :
    readIndex last path = .ok index := by
  unfold readIndex at held ⊢
  split
  case isTrue named =>
    rw [if_pos named] at held
    split at held
    case isTrue there =>
      rcases FileTree.isFile_iff.mp there with ⟨text, read⟩
      have later := grows.read_eq_ok_of untouched read
      rw [if_pos (FileTree.isFile_iff.mpr ⟨text, later⟩), later]
      rwa [read] at held
    case isFalse => cases held
  case isFalse other =>
    rw [if_neg other] at held
    cases held

theorem readContexts_of_grows {root : String} {references : List ContextReference}
    (untouched : ∀ reference ∈ references,
      tree.Untouched files directories (contextPath root reference)) :
    readContexts last root references = readContexts tree root references := by
  induction references with
  | nil => rfl
  | cons reference rest induction =>
      rcases List.forall_mem_cons.mp untouched with ⟨here, others⟩
      unfold readContexts
      dsimp only
      rw [grows.isFile_eq here, induction others]
      split
      case isTrue held => rw [grows.read_eq here.place held]
      case isFalse => rfl

omit grows in
theorem load_eq_ok {path : String} {solution : Solution}
    (loaded : (load tree path).result = .ok solution) :
    solution.indexPath = path ∧ readIndex tree path = .ok solution.index ∧
      solution.root = tree.absolute (directoryOf path) := by
  unfold load at loaded
  split at loaded
  case h_1 => cases loaded
  case h_2 index held =>
    rcases Logged.map_eq_ok.mp loaded with ⟨contexts, _, rfl⟩
    exact ⟨rfl, held, rfl⟩

theorem load_of_grows {path : String} {solution : Solution}
    (loaded : (load tree path).result = .ok solution)
    (index : tree.placeOf path ∉ files)
    (descriptions : ∀ reference ∈ solution.index.contexts,
      tree.Untouched files directories (contextPath solution.root reference)) :
    load last path = load tree path := by
  rcases load_eq_ok loaded with ⟨_, held, root⟩
  rw [root] at descriptions
  unfold load
  rw [held, readIndex_of_grows grows index held]
  dsimp only
  rw [grows.absolute_eq, readContexts_of_grows grows descriptions]

end Solution

namespace ChosenContexts

omit grows in
theorem choose_eq_ok {path : String} {patterns : List String} {chosen : ChosenContexts}
    (choice : (choose tree path patterns).result = .ok chosen) :
    (Solution.load tree path).result = .ok chosen.solution := by
  unfold choose at choice
  split at choice
  case h_1 => cases choice
  case h_2 solution loaded =>
    split at choice
    case h_1 => cases choice
    case h_2 =>
      cases choice
      rw [loaded]

theorem catalog_of_grows {setup : Setup} {chosen : ChosenContexts} {catalog : ToolchainCatalog}
    (known : chosen.contexts ≠ [] → ∀ place ∈ files ++ directories,
      place.tail = tree.placeOf setup.roots.compiler → place.head?.any Toolchain.isConfig = true →
      (tree.find? place).isSome = true)
    (discovered : (chosen.catalog tree setup).result = .ok catalog) :
    chosen.catalog last setup = chosen.catalog tree setup := by
  unfold ChosenContexts.catalog at discovered ⊢
  split
  case isTrue => rfl
  case isFalse some =>
    rw [if_neg some] at discovered
    have listed : ∃ list, tree.names setup.roots.compiler = .ok list := by
      unfold ToolchainCatalog.discover Toolchain.discoverConfigs at discovered
      dsimp only at discovered
      cases names : tree.names setup.roots.compiler with
      | ok list => exact ⟨list, rfl⟩
      | error fault =>
          rw [names] at discovered
          cases discovered
    rcases listed with ⟨list, names⟩
    rcases grows.names_eq names (known (by simpa using some)) with ⟨now, later, same⟩
    unfold ToolchainCatalog.discover Toolchain.discoverConfigs
    rw [names, later]
    dsimp only
    rw [Toolchain.configsOf_congr _ same]

end ChosenContexts

end SolutionLists
