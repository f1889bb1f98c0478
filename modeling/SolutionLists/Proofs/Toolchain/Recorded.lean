import SolutionLists.Lists.Context
import SolutionLists.Proofs.Path.Behind
import SolutionLists.Proofs.Text
import SolutionLists.Proofs.Toolchain.Choice
import SolutionLists.Toolchain.Discovery

namespace SolutionLists

/-! The configuration that is recorded for a context: the file that was chosen, by its path
from the directory of configurations. Whether it lies there is told by the text of its path,
and a text can mislead. -/

namespace Toolchain

open SolutionLists.Path

variable {root path rest : String}

/-! ## Separators at the ends of a path -/

def fromName (path : String) : String :=
  String.ofList (path.toList.dropWhile (· = '/'))

theorem fromName_slashes (count : Nat) (rest : String) :
    fromName (slashes count ++ rest) = fromName rest := by
  unfold fromName slashes
  congr 1
  rw [String.toList_append, String.toList_ofList, List.dropWhile_append_of_pos]
  intro char member
  simp [List.eq_of_mem_replicate member]

theorem fromName_slash (rest : String) : fromName ("/" ++ rest) = fromName rest :=
  fromName_slashes 1 rest

theorem exists_slashes_fromName (path : String) :
    ∃ count, path = slashes count ++ fromName path := by
  have all : path.toList.takeWhile (· = '/') =
      List.replicate (path.toList.takeWhile (· = '/')).length '/' := by
    apply List.eq_replicate_of_mem
    intro char member
    simpa using List.all_eq_true.mp List.all_takeWhile char member
  refine ⟨(path.toList.takeWhile (· = '/')).length, ?_⟩
  rw [← String.toList_inj, slashes, fromName, String.toList_append, String.toList_ofList,
    String.toList_ofList, ← all, List.takeWhile_append_dropWhile]

theorem fromName_of_name (name : ∀ other, path ≠ "/" ++ other) : fromName path = path := by
  rcases exists_slashes_fromName path with ⟨count, whole⟩
  cases count with
  | zero => rw [← String.empty_append (s := fromName path)]; exact whole.symm
  | succ count =>
      rw [slashes_succ, String.append_assoc] at whole
      exact absurd whole (name _)

theorem length_fromName_le (path : String) : (fromName path).length ≤ path.length := by
  rw [fromName, ← String.length_toList, ← String.length_toList, String.toList_ofList]
  exact (List.dropWhile_suffix _).length_le

theorem exists_withoutSeparators (path : String) :
    ∃ count, path = withoutSeparators path ++ slashes count := by
  rcases exists_trailing (· = '/') path.toList with ⟨trailing, whole, slash⟩
  have all : trailing = List.replicate trailing.length '/' :=
    List.eq_replicate_of_mem fun char member => by simpa using slash char member
  refine ⟨trailing.length, ?_⟩
  rw [← String.toList_inj, withoutSeparators, slashes, String.toList_append,
    String.toList_ofList, String.toList_ofList, ← all]
  exact whole

/-! ## What is recorded -/

/-- What there is to record of a path: where it leads into the directory `root`, what is
behind that directory and the separators, else the whole path. -/
inductive Recorded (root path : String) : String → Prop
  | inside {rest : String} (below : path = withoutSeparators root ++ "/" ++ rest) :
      Recorded root path (fromName rest)
  | outside (apart : ∀ rest, path ≠ withoutSeparators root ++ "/" ++ rest) :
      Recorded root path path

/-- Where the text of a path misleads about the directory `root`. -/
inductive Misleads (root path : String) : Prop
  /-- The path starts with the text of the directory, and goes on in the same name. -/
  | beside {rest : String} (bare : withoutSeparators root = root) (something : root ≠ "")
      (whole : path = root ++ rest) (sameName : ∀ other, rest ≠ "/" ++ other)
  /-- The directory is written with more separators at its end than the path has there. -/
  | crowded {rest : String} (below : path = withoutSeparators root ++ "/" ++ rest)
      (other : ∀ rest, path ≠ root ++ rest)

theorem relativeConfig_append (root rest : String) :
    ToolchainCatalog.relativeConfig root (root ++ rest) = fromName rest := by
  rw [ToolchainCatalog.relativeConfig, Text.stripStart_append]
  rfl

theorem relativeConfig_of_apart (apart : ∀ rest, path ≠ root ++ rest) :
    ToolchainCatalog.relativeConfig root path = path := by
  rw [ToolchainCatalog.relativeConfig, Text.stripStart_eq_none apart]

theorem fromName_eq_of_append_eq {other : String}
    (same : root ++ other = withoutSeparators root ++ "/" ++ rest) :
    fromName other = fromName rest := by
  rcases exists_withoutSeparators root with ⟨count, whole⟩
  have behind : slashes count ++ other = "/" ++ rest := by
    rw [← String.append_right_inj (withoutSeparators root), ← String.append_assoc, ← whole, same,
      String.append_assoc]
  rw [← fromName_slashes count, behind, fromName_slash]

theorem recorded_inside (below : path = withoutSeparators root ++ "/" ++ rest) {config : String} :
    Recorded root path config ↔ config = fromName rest := by
  constructor
  · rintro (@⟨other, again⟩ | ⟨apart⟩)
    · rw [(String.append_right_inj _).mp (again.symm.trans below)]
    · exact absurd below (apart rest)
  · rintro rfl
    exact .inside below

theorem recorded_outside (apart : ∀ rest, path ≠ withoutSeparators root ++ "/" ++ rest)
    {config : String} : Recorded root path config ↔ config = path := by
  constructor
  · rintro (⟨below⟩ | _)
    · exact absurd below (apart _)
    · rfl
  · rintro rfl
    exact .outside apart

/-- A path that starts with the text of a directory leads into it, unless there is no
separator between the two. -/
theorem bare_of_outside (apart : ∀ rest, path ≠ withoutSeparators root ++ "/" ++ rest)
    (whole : path = root ++ rest) :
    withoutSeparators root = root ∧ ∀ other, rest ≠ "/" ++ other := by
  rcases exists_withoutSeparators root with ⟨count, ending⟩
  have bare : withoutSeparators root = root := by
    cases count with
    | zero => exact (ending.trans (append_slashes_zero _)).symm
    | succ count =>
        refine absurd ?_ (apart (slashes count ++ rest))
        calc
          path = withoutSeparators root ++ slashes (count + 1) ++ rest := by rw [← ending, whole]
          _ = withoutSeparators root ++ "/" ++ (slashes count ++ rest) := by
            simp only [slashes_succ, String.append_assoc]
  refine ⟨bare, ?_⟩
  rintro other rfl
  exact apart other (by rw [bare, whole, String.append_assoc])

theorem recorded_relativeConfig_iff :
    Recorded root path (ToolchainCatalog.relativeConfig root path) ↔ ¬ Misleads root path := by
  by_cases inside : ∃ rest, path = withoutSeparators root ++ "/" ++ rest
  · rcases inside with ⟨rest, below⟩
    rw [recorded_inside below]
    by_cases starts : ∃ other, path = root ++ other
    · rcases starts with ⟨other, whole⟩
      have recorded : ToolchainCatalog.relativeConfig root path = fromName rest := by
        rw [whole, relativeConfig_append, fromName_eq_of_append_eq (whole.symm.trans below)]
      refine iff_of_true recorded ?_
      rintro (⟨bare, _, again, sameName⟩ | ⟨_, apart⟩)
      · rw [bare, again, String.append_assoc] at below
        exact sameName rest ((String.append_right_inj root).mp below)
      · exact apart other whole
    · rw [not_exists] at starts
      have misleads : Misleads root path := .crowded below starts
      refine iff_of_false ?_ (not_not.mpr misleads)
      intro recorded
      have longer := length_fromName_le rest
      rw [← recorded, relativeConfig_of_apart starts, below, String.length_append,
        String.length_append] at longer
      have separator : "/".length = 1 := rfl
      omega
  · rw [not_exists] at inside
    rw [recorded_outside inside]
    by_cases starts : ∃ other, path = root ++ other
    · rcases starts with ⟨other, whole⟩
      rcases bare_of_outside inside whole with ⟨bare, sameName⟩
      have recorded : ToolchainCatalog.relativeConfig root path = other := by
        rw [whole, relativeConfig_append, fromName_of_name sameName]
      rw [recorded]
      by_cases empty : root = ""
      · refine iff_of_true (by rw [whole, empty, String.empty_append]) ?_
        rintro (⟨_, something, _, _⟩ | ⟨below, _⟩)
        · exact something empty
        · exact inside _ below
      · have misleads : Misleads root path := .beside bare empty whole sameName
        refine iff_of_false ?_ (not_not.mpr misleads)
        intro same
        have nothing : "" ++ other = root ++ other := by rw [← whole, ← same, String.empty_append]
        exact empty ((String.append_left_inj other).mp nothing).symm
    · rw [not_exists] at starts
      refine iff_of_true (relativeConfig_of_apart starts) ?_
      rintro (⟨_, _, whole, _⟩ | ⟨below, _⟩)
      · exact starts _ whole
      · exact inside _ below

theorem clean_relativeConfig (below : path = withoutSeparators root ++ "/" ++ rest)
    (plain : ¬ Misleads root path) :
    clean (root ++ "/" ++ ToolchainCatalog.relativeConfig root path) = clean path := by
  have recorded := (recorded_inside below).mp (recorded_relativeConfig_iff.mpr plain)
  rcases exists_withoutSeparators root with ⟨count, ending⟩
  rcases exists_slashes_fromName rest with ⟨more, whole⟩
  have first : root ++ "/" ++ fromName rest =
      withoutSeparators root ++ "/" ++ (slashes count ++ fromName rest) :=
    (congrArg (· ++ "/" ++ fromName rest) ending).trans (slashes_behind _ count _)
  have second : path = withoutSeparators root ++ "/" ++ (slashes more ++ fromName rest) := by
    rw [← whole]
    exact below
  rw [recorded, first, second]
  apply clean_congr
  · rw [isRooted_slash, isRooted_slash]
  · rw [splitOn_join, splitOn_join]
    apply eqvGen_append_left
    exact .trans _ _ _ (drops_splitOn_slashes count _) (.symm _ _ (drops_splitOn_slashes more _))

end Toolchain

namespace ToolchainCatalog

variable {catalog : ToolchainCatalog} {compiler : String} {selected : SelectedToolchain}

theorem select_eq_ok :
    catalog.select compiler = .ok selected ↔
      ∃ requirement installation config, Requirement.parse compiler = .ok requirement ∧
        Toolchain.resolve requirement catalog.configs catalog.registered =
          .ok (installation, config) ∧
        selected =
          { name := installation.name
            version := installation.version
            root := installation.path
            config := relativeConfig catalog.compilerRoot config.path } := by
  unfold select
  cases Requirement.parse compiler with
  | error error => simp
  | ok requirement =>
      dsimp only
      cases resolved : Toolchain.resolve requirement catalog.configs catalog.registered with
      | error error => simp [resolved]
      | ok choice =>
          rcases choice with ⟨installation, config⟩
          constructor
          · intro same
            cases same
            exact ⟨requirement, installation, config, rfl, resolved, rfl⟩
          · rintro ⟨_, _, _, ⟨⟩, again, rfl⟩
            cases resolved.symm.trans again
            rfl

/-- The line that includes the recorded configuration, from the directory of configurations. -/
def includeLine (selected : SelectedToolchain) : String :=
  "include(" ++ quoted (Path.variableReference "CMSIS_COMPILER_ROOT" ++ "/" ++ selected.config) ++
    ")"

theorem includes_recorded (selected : SelectedToolchain) :
    ∃ before after, Lists.toolchainFile selected =
      before ++ Lines.text [includeLine selected] ++ after := by
  apply Lines.exists_around
  exact (List.suffix_append
    ["", "set(REGISTERED_TOOLCHAIN_ROOT " ++ quoted selected.root ++ ")",
      "set(REGISTERED_TOOLCHAIN_VERSION " ++ quoted selected.version.text ++ ")"] _).isInfix

/-- What is recorded of the chosen configuration is its path from the directory of
configurations, or all of its path where it does not lie there, exactly unless the text of the
path misleads about that. Then it leads back to the file. -/
theorem recorded_config_names_chosen_file (catalog : ToolchainCatalog) (compiler : String)
    (selected : SelectedToolchain) (chosen : catalog.select compiler = .ok selected) :
    ∃ requirement installation config, Requirement.parse compiler = .ok requirement ∧
      Toolchain.resolve requirement catalog.configs catalog.registered =
        .ok (installation, config) ∧
      (Toolchain.Recorded catalog.compilerRoot config.path selected.config ↔
        ¬ Toolchain.Misleads catalog.compilerRoot config.path) ∧
      (∀ rest, config.path = Toolchain.withoutSeparators catalog.compilerRoot ++ "/" ++ rest →
        ¬ Toolchain.Misleads catalog.compilerRoot config.path →
        Path.clean (catalog.compilerRoot ++ "/" ++ selected.config) = Path.clean config.path) ∧
      ∃ before after, Lists.toolchainFile selected =
        before ++ Lines.text [includeLine selected] ++ after := by
  have written := includes_recorded selected
  rcases select_eq_ok.mp chosen with ⟨requirement, installation, config, parsed, resolved, rfl⟩
  refine ⟨requirement, installation, config, parsed, resolved, ?_, ?_, written⟩
  · exact Toolchain.recorded_relativeConfig_iff
  · intro rest below plain
    exact Toolchain.clean_relativeConfig below plain

/-- One configuration, and one installation that reaches it. -/
private def single (compilerRoot path : String) : ToolchainCatalog where
  compilerRoot
  configs := [{ name := "GCC", version := ⟨13, 2, 1, [], []⟩, path }]
  registered := [{ name := "GCC", version := ⟨13, 2, 1, [], []⟩, path := "/gcc" }]

private theorem parse_single : Requirement.parse "GCC" = .ok { name := "GCC" } := by decide

private theorem resolve_single (compilerRoot path : String) :
    Toolchain.resolve { name := "GCC" } (single compilerRoot path).configs
        (single compilerRoot path).registered =
      .ok (⟨"GCC", ⟨13, 2, 1, [], []⟩, "/gcc"⟩, ⟨"GCC", ⟨13, 2, 1, [], []⟩, path⟩) := by
  simp [Toolchain.resolve, Toolchain.named, Toolchain.newestFirst, Toolchain.configFor, single,
    Requirement.accepts]

private theorem select_single (compilerRoot path : String) :
    (single compilerRoot path).select "GCC" =
      .ok ⟨"GCC", ⟨13, 2, 1, [], []⟩, "/gcc", relativeConfig compilerRoot path⟩ :=
  select_eq_ok.mpr ⟨_, _, _, parse_single, resolve_single compilerRoot path, rfl⟩

private theorem path_of_chosen {compilerRoot path : String} {requirement : Requirement}
    {installation config : Toolchain} (parsed : Requirement.parse "GCC" = .ok requirement)
    (resolved : Toolchain.resolve requirement (single compilerRoot path).configs
      (single compilerRoot path).registered = .ok (installation, config)) :
    config.path = path := by
  cases parse_single.symm.trans parsed
  cases (resolve_single compilerRoot path).symm.trans resolved
  rfl

theorem recorded_config_names_chosen_file_slashes :
    ∃ selected, (single "/etc/cmsis/" "/etc/cmsis//GCC.13.2.1.cmake").select "GCC" = .ok selected ∧
      Toolchain.Recorded "/etc/cmsis/" "/etc/cmsis//GCC.13.2.1.cmake" selected.config ∧
      Path.clean ("/etc/cmsis/" ++ "/" ++ selected.config) =
        Path.clean "/etc/cmsis//GCC.13.2.1.cmake" := by
  have chosen := select_single "/etc/cmsis/" "/etc/cmsis//GCC.13.2.1.cmake"
  have below : "/etc/cmsis//GCC.13.2.1.cmake" =
      Toolchain.withoutSeparators "/etc/cmsis/" ++ "/" ++ "/GCC.13.2.1.cmake" := by decide
  have recorded : Toolchain.Recorded "/etc/cmsis/" "/etc/cmsis//GCC.13.2.1.cmake"
      (relativeConfig "/etc/cmsis/" "/etc/cmsis//GCC.13.2.1.cmake") :=
    (Toolchain.recorded_inside below).mpr (by decide)
  rcases recorded_config_names_chosen_file _ _ _ chosen with
    ⟨requirement, installation, config, parsed, resolved, told, back, _⟩
  rw [path_of_chosen parsed resolved] at told back
  exact ⟨_, chosen, recorded, back _ below (told.mp recorded)⟩

/-- Of a configuration in a directory beside that starts with the same name, the end of that
name is recorded for a directory. -/
theorem config_beside_root_loses_directory :
    ¬ ∀ (catalog : ToolchainCatalog) (compiler : String) (selected : SelectedToolchain),
      catalog.select compiler = .ok selected →
      ∃ requirement installation config, Requirement.parse compiler = .ok requirement ∧
        Toolchain.resolve requirement catalog.configs catalog.registered =
          .ok (installation, config) ∧
        Toolchain.Recorded catalog.compilerRoot config.path selected.config := by
  intro named
  rcases named _ _ _ (select_single "/etc/cm" "/etc/cmsis/GCC.13.2.1.cmake") with
    ⟨requirement, installation, config, parsed, resolved, recorded⟩
  rw [path_of_chosen parsed resolved] at recorded
  have misleads : Toolchain.Misleads "/etc/cm" "/etc/cmsis/GCC.13.2.1.cmake" := by
    refine @Toolchain.Misleads.beside _ _ "sis/GCC.13.2.1.cmake" ?bare ?something ?whole ?sameName
    case bare => decide
    case something => decide
    case whole => decide
    case sameName =>
      intro other same
      have first := congrArg (·.toList.head?) same
      simp at first
  exact Toolchain.recorded_relativeConfig_iff.mp recorded misleads

end ToolchainCatalog

end SolutionLists
