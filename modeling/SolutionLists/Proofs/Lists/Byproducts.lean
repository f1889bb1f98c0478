import Mathlib.Data.List.Forall2
import SolutionLists.Generation
import SolutionLists.Proofs.Path.Behind

namespace SolutionLists

/-! The super project lists the files that the build of a context leaves behind. It hangs
each one on the solution root as a whole; the lists of the context hang the directory and
leave the file to the build. Both mean the same place, but for a name that begins with a
variable where no directory is given. -/

namespace Path

/-! ## A file in the output directory -/

theorem exists_outputPath {directory : String} (inside : directory ≠ "") (file : String) :
    ∃ bare count, directory = bare ++ slashes count ∧
      Lists.SuperContext.outputPath directory file = bare ++ "/" ++ file := by
  rcases exists_trailing (· = '/') directory.toList with ⟨trailing, whole, passed⟩
  have same : trailing = List.replicate trailing.length '/' :=
    List.eq_replicate_of_mem fun char member => of_decide_eq_true (passed char member)
  refine ⟨_, trailing.length, ?_, if_neg inside⟩
  rw [← String.toList_inj, slashes, ← same, String.toList_append, String.toList_ofList,
    String.toList_ofList]
  exact whole

theorem drops_outputPath (directory file : String) :
    Relation.EqvGen Drops (segments (Lists.SuperContext.outputPath directory file))
      (segments directory ++ segments file) := by
  by_cases inside : directory = ""
  · have listed : Lists.SuperContext.outputPath directory file = file := if_pos inside
    rw [listed, inside, segments_empty, List.singleton_append]
    exact .symm _ _ (.rel _ _ (.first (segments file)))
  · rcases exists_outputPath inside file with ⟨bare, count, whole, listed⟩
    rw [listed, ← segments_slash, whole, slashes_behind, segments_slash, segments_slash]
    exact eqvGen_append_left (.symm _ _ (drops_slashes count file)) _

theorem isAnchored_outputPath {directory file : String} (drive : isDrive directory = false)
    (plain : PlainName file) (free : directory = "" → isReference file = false) :
    isAnchored (forwardSlashes (Lists.SuperContext.outputPath directory file)) =
      isAnchored (forwardSlashes directory) := by
  by_cases inside : directory = ""
  · subst inside
    change isAnchored (forwardSlashes file) = false
    rw [plain.forwardSlashes, isAnchored, free rfl, plain.isAbsolute]
    rfl
  · rcases exists_outputPath inside file with ⟨bare, count, whole, listed⟩
    rw [listed, forwardSlashes_slash, Bool.eq_iff_iff, isAnchored_slash, whole]
    cases count with
    | zero =>
        rw [append_slashes_zero] at whole ⊢
        subst whole
        have noDrive : isDrive (forwardSlashes directory) = false := by
          apply Bool.eq_false_iff.mpr
          intro found
          exact Bool.eq_false_iff.mp drive (isDrive_of_forwardSlashes found)
        simp [forwardSlashes_eq_empty, inside, noDrive]
    | succ count =>
        rw [slashes_succ, ← String.append_assoc, forwardSlashes_slash, isAnchored_slash]

/-- A file lies in the same place, hung on the solution root in its directory or behind it. -/
theorem sameDirectory_outputPath {base directory file : String} (drive : isDrive directory = false)
    (plain : PlainName file) (free : directory = "" → isReference file = false) :
    SameDirectory (anchor base (Lists.SuperContext.outputPath directory file))
      (anchor base directory ++ "/" ++ file) := by
  have alike := isAnchored_outputPath drive plain free
  have behind := drops_outputPath directory file
  rw [plain.segments] at behind
  cases anchored : isAnchored (forwardSlashes directory) with
  | true =>
      rw [anchor_of_anchored anchored, anchor_of_anchored (alike.trans anchored)]
      have inside : directory ≠ "" := by
        rintro rfl
        exact absurd anchored (by decide)
      rcases exists_outputPath inside file with ⟨bare, count, whole, listed⟩
      rw [listed, whole, forwardSlashes_slash, forwardSlashes_append, forwardSlashes_slashes,
        plain.forwardSlashes, slashes_behind]
      exact SameDirectory.slash _ (.symm _ _ (drops_slashes count file))
  | false =>
      have same : Relation.EqvGen Drops
          ((below base (Lists.SuperContext.outputPath directory file)).toList.splitOn '/')
          ((below base directory).toList.splitOn '/' ++ [file.toList]) := by
        rw [splitOn_below, splitOn_below, List.append_assoc]
        exact eqvGen_append_left behind _
      have rooted := isRooted_below base (alike.trans anchored) anchored
      have concat := cleanSegments_concat rooted same plain.isName
      rw [anchor_of_free anchored, anchor_of_free (alike.trans anchored),
        if_neg (clean_ne_dot_of_concat concat)]
      exact sameDirectory_clean_concat rooted concat _

/-! ## A name with a variable in front -/

theorem PlainName.route_of_reference {file : String} (plain : PlainName file)
    (reference : isReference file = true) : route file = (.reference file.toList, []) := by
  have relative : isRooted file = false := by
    refine Bool.eq_false_iff.mpr fun rooted => ?_
    exact Bool.eq_false_iff.mp plain.isAbsolute (isAbsolute_iff.mpr (.inl rooted))
  unfold route
  rw [plain.segments, plain.forwardSlashes]
  simp [relative, reference]

theorem not_sameDirectory_of_reference {file rest : String} (plain : PlainName file)
    (reference : isReference file = true)
    (behind : ∃ front, segments rest = front ++ [file.toList]) :
    ¬ SameDirectory file (solutionRoot ++ "/" ++ rest) := by
  rcases behind with ⟨front, behind⟩
  have routed : (route (solutionRoot ++ "/" ++ rest)).2 = front ++ [file.toList] := by
    have root : segments solutionRoot = [solutionRoot.toList] := by decide
    unfold route
    rw [segments_slash, root, behind, forwardSlashes_slash, isReference_slash, isRooted_slash]
    rfl
  intro same
  have folded := foldl_pushSegment_congr same.2 false []
  rw [plain.route_of_reference reference, routed, List.foldl_append, List.foldl_cons,
    List.foldl_nil, List.foldl_nil, pushSegment_name _ _ plain.isName] at folded
  cases folded

theorem outputPath_of_reference (base : String) {file : String} (plain : PlainName file)
    (reference : isReference file = true) :
    anchor base (Lists.SuperContext.outputPath "" file) = file ∧
      ¬ SameDirectory file (anchor base "" ++ "/" ++ file) := by
  constructor
  · have anchored : isAnchored (forwardSlashes file) = true := by
      rw [plain.forwardSlashes, isAnchored, reference]
      rfl
    exact (anchor_of_anchored anchored).trans plain.forwardSlashes
  · rw [anchor_of_free (by decide : isAnchored (forwardSlashes "") = false)]
    split
    case isTrue => exact not_sameDirectory_of_reference plain reference ⟨[], plain.segments⟩
    case isFalse =>
      have whole := segments_slash (clean (below base "")) file
      rw [plain.segments] at whole
      have joined := not_sameDirectory_of_reference plain reference ⟨_, whole⟩
      simpa only [String.append_assoc] using joined

end Path

/-! ## The file that a context is linked into -/

/-- Whether a context is linked into such an output. -/
def OutputKind.isImage : OutputKind → Bool
  | elf | lib => true
  | _ => false

namespace OutputPlan

theorem splitExtension_append (path : String) :
    (splitExtension path).1 ++ (splitExtension path).2 = path := by
  unfold splitExtension
  dsimp only
  split
  case isTrue =>
    rw [← String.toList_inj, String.toList_append, String.toList_ofList, String.toList_ofList,
      List.take_append_drop]
  case isFalse => exact String.append_empty

theorem image_add (plan : OutputPlan) {output : Output} (image : output.kind.isImage = true) :
    (plan.add output).name ++ (plan.add output).extension = output.file := by
  unfold add
  cases kind : output.kind with
  | elf => exact splitExtension_append output.file
  | lib => exact splitExtension_append output.file
  | _ => rw [kind] at image; cases image

theorem image_add_other (plan : OutputPlan) {output : Output}
    (other : output.kind.isImage = false) :
    (plan.add output).name = plan.name ∧ (plan.add output).extension = plan.extension := by
  unfold add
  cases kind : output.kind with
  | elf => rw [kind] at other; cases other
  | lib => rw [kind] at other; cases other
  | _ => exact ⟨rfl, rfl⟩

theorem image_foldl (plan : OutputPlan) {outputs : List Output}
    (others : ∀ output ∈ outputs, output.kind.isImage = false) :
    (outputs.foldl add plan).name = plan.name ∧
      (outputs.foldl add plan).extension = plan.extension := by
  induction outputs generalizing plan with
  | nil => exact ⟨rfl, rfl⟩
  | cons output rest induction =>
      have here := image_add_other plan (others output List.mem_cons_self)
      have later := induction (plan.add output)
        fun output member => others output (List.mem_cons_of_mem _ member)
      exact ⟨later.1.trans here.1, later.2.trans here.2⟩

theorem image_ofOutputs {outputs before after : List Output} {output : Output}
    (declared : outputs = before ++ output :: after) (image : output.kind.isImage = true)
    (others : ∀ later ∈ after, later.kind.isImage = false) :
    (ofOutputs outputs).name ++ (ofOutputs outputs).extension = output.file := by
  rw [declared, ofOutputs, List.foldl_append, List.foldl_cons, (image_foldl _ others).1,
    (image_foldl _ others).2]
  exact image_add _ image

end OutputPlan

/-! ## What the super project lists -/

namespace Lists

def outputDirectoryLine (directory : String) : String :=
  "set(OUT_DIR " ++ quoted directory ++ ")"

/-- The statement that names the file a context is linked into. -/
def imageNameLine (name extension : String) : String :=
  "set_target_properties(" ++ Target.context ++ " PROPERTIES " ++ "PREFIX \"\" SUFFIX " ++
    quoted extension ++ " OUTPUT_NAME " ++ quoted name ++ ")"

theorem outputDirectoryLine_mem (plan : ContextPlan) :
    outputDirectoryLine (Path.anchor plan.root plan.context.directories.output) ∈
      setupLines plan := by
  unfold setupLines
  dsimp only
  simp only [List.append_assoc]
  apply List.mem_append_left
  exact .tail _ (.tail _ (.tail _ (.head _)))

theorem imageNameLine_mem (plan : ContextPlan) (wording : Wording) :
    imageNameLine plan.outputs.name plan.outputs.extension ∈ targetLines plan wording := by
  unfold targetLines
  dsimp only
  simp only [List.append_assoc]
  apply List.mem_append_left
  exact .tail _ (.tail _ (.tail _ (.head _)))

end Lists

theorem superContext_outputs (description : ContextDescription) :
    (ChosenContexts.superContext description).outputs =
      description.context.outputs.map fun output =>
        Path.anchor description.root (Lists.SuperContext.outputPath
          description.context.directories.output output.file) := by
  simp only [ChosenContexts.superContext, Lists.SuperContext.make, List.map_map, Function.comp_def]

/-- What the super project lists for an output that is a plain name is the file in the output
directory that the lists of the context set, unless no directory is given and the name begins
with a variable: that name is listed as it is. The linked image has its name from the properties
that the lists give it. -/
theorem byproducts_in_output_directory (description : ContextDescription)
    (toolchain : SelectedToolchain) (wording : Lists.Wording)
    (drive : Path.isDrive description.context.directories.output = false) :
    let plan := ContextPlan.make description.context description.root toolchain
    let outputs := description.context.outputs
    let written := description.context.directories.output
    let directory := Path.anchor description.root written
    Lists.outputDirectoryLine directory ∈ Lists.setupLines plan ∧
      List.Forall₂ (fun output listed => Path.PlainName output.file →
          let leaves := written = "" ∧ "$\x7b".toList <+: output.file.toList
          (Path.SameDirectory listed (directory ++ "/" ++ output.file) ↔ ¬ leaves) ∧
            (leaves → listed = output.file))
        outputs (ChosenContexts.superContext description).outputs ∧
      ∀ before output after, outputs = before ++ output :: after →
        output.kind.isImage = true → (∀ later ∈ after, later.kind.isImage = false) →
        ∃ name extension, Lists.imageNameLine name extension ∈ Lists.targetLines plan wording ∧
          output.file = name ++ extension := by
  intro plan outputs written directory
  refine ⟨Lists.outputDirectoryLine_mem plan, ?_, ?_⟩
  · rw [superContext_outputs, List.forall₂_map_right_iff]
    refine List.forall₂_same.mpr fun output _ plain => ?_
    have spelled : "$\x7b".toList <+: output.file.toList ↔ Path.isReference output.file = true :=
      List.isPrefixOf_iff_prefix.symm
    rw [spelled]
    by_cases leaves : written = "" ∧ Path.isReference output.file = true
    · have apart := Path.outputPath_of_reference description.root plain leaves.2
      simp only [directory, written] at leaves ⊢
      rw [leaves.1, apart.1]
      exact ⟨iff_of_false apart.2 (not_not_intro ⟨rfl, leaves.2⟩), fun _ => rfl⟩
    · have free : written = "" → Path.isReference output.file = false :=
        fun nothing => Bool.eq_false_iff.mpr fun reference => leaves ⟨nothing, reference⟩
      exact ⟨iff_of_true (Path.sameDirectory_outputPath drive plain free) leaves,
        fun other => absurd other leaves⟩
  · intro before output after declared image others
    exact ⟨_, _, Lists.imageNameLine_mem plan wording,
      (OutputPlan.image_ofOutputs declared image others).symm⟩

private def debugDescription : ContextDescription where
  reference := {}
  name := "app.debug"
  path := "/solution/app/app.cbuild.yml"
  root := "app"
  context :=
    { directories := { output := "../out\\debug//" }
      outputs := [⟨"image.hex", .hex⟩, ⟨"image.d.axf", .elf⟩, ⟨"image.map", .map⟩] }

private def debugToolchain : SelectedToolchain where
  name := "GCC"
  version := { major := 13, minor := 2, patch := 1 }
  root := "/opt/gcc/bin"
  config := "GCC.13.2.1.cmake"

theorem byproducts_in_output_directory_debug :
    let directory := Path.anchor "app" "../out\\debug//"
    let plan := ContextPlan.make debugDescription.context "app" debugToolchain
    let wording := Lists.Wording.make "app" []
    (ChosenContexts.superContext debugDescription).outputs =
        [Path.solutionRoot ++ "/out/debug/image.hex", Path.solutionRoot ++ "/out/debug/image.d.axf",
          Path.solutionRoot ++ "/out/debug/image.map"] ∧
      Path.SameDirectory (Path.solutionRoot ++ "/out/debug/image.d.axf")
        (directory ++ "/" ++ "image.d.axf") ∧
      ∃ name extension, Lists.imageNameLine name extension ∈ Lists.targetLines plan wording ∧
        "image.d.axf" = name ++ extension := by
  intro directory plan wording
  have listed : (ChosenContexts.superContext debugDescription).outputs =
      [Path.solutionRoot ++ "/out/debug/image.hex", Path.solutionRoot ++ "/out/debug/image.d.axf",
        Path.solutionRoot ++ "/out/debug/image.map"] := by decide +kernel
  rcases byproducts_in_output_directory debugDescription debugToolchain wording (by decide) with
    ⟨_, places, image⟩
  rw [listed] at places
  refine ⟨listed, ?_, ?_⟩
  · cases places with
    | cons hex others =>
        cases others with
        | cons elf others => exact (elf ⟨by decide, by decide, by decide⟩).1.mpr (by decide)
  · exact image [⟨"image.hex", .hex⟩] ⟨"image.d.axf", .elf⟩ [⟨"image.map", .map⟩] rfl rfl
      (by decide)

/-- Where no output directory is given, the image of a context may have a variable in front of
its name. It is built in the directory of the context, and listed without it. -/
theorem variable_output_listed_elsewhere :
    let description : ContextDescription :=
      { debugDescription with context := { outputs := [⟨"$\x7bNAME\x7d.axf", .elf⟩] } }
    let plan := ContextPlan.make description.context "app" debugToolchain
    Path.PlainName "$\x7bNAME\x7d.axf" ∧
      Lists.outputDirectoryLine (Path.solutionRoot ++ "/app") ∈ Lists.setupLines plan ∧
      (ChosenContexts.superContext description).outputs = ["$\x7bNAME\x7d.axf"] ∧
      ¬ Path.SameDirectory "$\x7bNAME\x7d.axf"
        (Path.solutionRoot ++ "/app" ++ "/" ++ "$\x7bNAME\x7d.axf") := by
  intro description plan
  have plain : Path.PlainName "$\x7bNAME\x7d.axf" := ⟨by decide, by decide, by decide⟩
  have root : Path.anchor "app" "" = Path.solutionRoot ++ "/app" := by decide
  have apart := (Path.outputPath_of_reference "app" plain (by decide)).2
  rw [root] at apart
  exact ⟨plain, root ▸ Lists.outputDirectoryLine_mem plan, by decide +kernel, apart⟩

end SolutionLists
