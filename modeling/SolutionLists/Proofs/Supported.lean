import SolutionLists.Proofs.Target.Sources

namespace SolutionLists

/-! Assembly sources can neither delete directories nor take definitions back. Nothing that is
looked up in a description ahead of the walk hangs on entries that ask for it. -/

namespace File

def isAssembled (file : File) : Bool :=
  file.isSource && file.language = .asm

/-- The file less the entries that are not supported for assembly. -/
def supported (file : File) : File :=
  if file.isAssembled then { file with delPath := [], undefine := [] } else file

end File

def NodeOptions.supported (options : NodeOptions) : NodeOptions :=
  { options with files := options.files.map File.supported }

mutual

def Group.supported : Group → Group
  | ⟨name, options, groups⟩ => ⟨name, options.supported, Group.allSupported groups⟩

def Group.allSupported : List Group → List Group
  | [] => []
  | group :: rest => group.supported :: Group.allSupported rest

end

def Component.supported (component : Component) : Component :=
  { component with options := component.options.supported }

/-- A context in which no assembly source asks for what is not supported. -/
def Context.supported (context : Context) : Context :=
  { context with
    groups := Group.allSupported context.groups
    components := context.components.map Component.supported
    constructedFiles := context.constructedFiles.map File.supported }

/-! ## Files -/

namespace File

theorem comp_supported {α : Type} (read : File → α)
    (blind : ∀ (file : File) (delPath undefine : List String),
      read { file with delPath, undefine } = read file) :
    read ∘ supported = read := by
  funext file
  rw [Function.comp_apply, supported]
  split
  · exact blind file [] []
  · rfl

theorem read_supported {α : Type} (read : File → α)
    (blind : ∀ (file : File) (delPath undefine : List String),
      read { file with delPath, undefine } = read file) (file : File) :
    read file.supported = read file :=
  congrFun (comp_supported read blind) file

theorem language_of_isAssembled {file : File} (assembled : file.isAssembled = true) :
    file.language = .asm := by
  rw [isAssembled, Bool.and_eq_true, decide_eq_true_iff] at assembled
  exact assembled.2

theorem hasCustomOptions_supported (file : File) :
    file.supported.hasCustomOptions = file.hasCustomOptions := by
  unfold supported
  split
  case isTrue assembled =>
    have assembly := language_of_isAssembled assembled
    have kept : language { file with delPath := [], undefine := [] } = .asm := assembly
    simp [hasCustomOptions, assembly, kept]
  case isFalse => rfl

theorem isPlainSource_supported (file : File) :
    file.supported.isPlainSource = file.isPlainSource := by
  rw [isPlainSource, isPlainSource, hasCustomOptions_supported,
    read_supported isSource fun _ _ _ => rfl, read_supported isTemplate fun _ _ _ => rfl]

end File

theorem hasBuildableFiles_supported (files : List File) :
    hasBuildableFiles (files.map File.supported) = hasBuildableFiles files := by
  rw [hasBuildableFiles, List.any_map, File.comp_supported File.isBuildable fun _ _ _ => rfl]
  rfl

theorem hasFileAbstractions_supported (files : List File) :
    hasFileAbstractions (files.map File.supported) = hasFileAbstractions files := by
  rw [hasFileAbstractions, List.any_map]
  exact congrArg files.any (File.comp_supported _ fun _ _ _ => rfl)

theorem spoken_supported (files : List File) :
    (files.map File.supported).flatMap File.spoken = files.flatMap File.spoken := by
  rw [List.flatMap_map]
  exact congrArg files.flatMap (File.comp_supported File.spoken fun _ _ _ => rfl)

theorem sourceLanguages_supported (files : List File) :
    sourceLanguages (files.map File.supported) = sourceLanguages files := by
  rw [sourceLanguages_eq, sourceLanguages_eq, spoken_supported]

theorem filter_supported (chosen : File → Bool)
    (blind : ∀ (file : File) (delPath undefine : List String),
      chosen { file with delPath, undefine } = chosen file) (files : List File) :
    (files.map File.supported).filter chosen = (files.filter chosen).map File.supported := by
  rw [List.filter_map, File.comp_supported chosen blind]

namespace Classification

variable (root : String)

theorem add_supported (sorted : Classification) (file : File) :
    add root sorted file.supported = add root sorted file := by
  have custom := file.hasCustomOptions_supported
  unfold File.supported at custom ⊢
  split
  case isTrue assembled =>
    rw [if_pos assembled] at custom
    unfold add
    rw [custom]
    rfl
  case isFalse => rfl

theorem ofFiles_supported (files : List File) :
    ofFiles root (files.map File.supported) = ofFiles root files := by
  rw [ofFiles, ofFiles, List.any_map, List.foldl_map]
  simp only [add_supported, Function.comp_def, File.isPlainSource_supported]

theorem findings_supported (files : List File) :
    findings root (files.map File.supported) = findings root files := by
  rw [findings, List.filterMap_map, File.comp_supported (finding? root) fun _ _ _ => rfl]
  rfl

end Classification

/-! ## Groups -/

theorem NodeOptions.files_supported (options : NodeOptions) :
    options.supported.files = options.files.map File.supported :=
  rfl

theorem Group.name_supported (group : Group) : group.supported.name = group.name := by
  cases group
  rw [Group.supported]

theorem Group.isEmpty_allSupported (groups : List Group) :
    (Group.allSupported groups).isEmpty = groups.isEmpty := by
  cases groups with
  | nil => rfl
  | cons group rest => rfl

mutual

theorem Group.files_supported : (group : Group) →
    group.supported.files = group.files.map File.supported
  | ⟨name, options, groups⟩ => by
      rw [Group.supported, Group.files, Group.files, List.map_append,
        NodeOptions.files_supported, Group.allFiles_supported groups]

theorem Group.allFiles_supported : (groups : List Group) →
    Group.allFiles (Group.allSupported groups) = (Group.allFiles groups).map File.supported
  | [] => rfl
  | group :: rest => by
      rw [Group.allSupported, Group.allFiles, Group.allFiles, List.map_append,
        Group.files_supported group, Group.allFiles_supported rest]

end

theorem Group.anyBuildable_supported (groups : List Group) :
    Group.anyBuildable (Group.allSupported groups) = Group.anyBuildable groups := by
  rw [Target.anyBuildable_eq, Target.anyBuildable_eq, Group.allFiles_supported,
    hasBuildableFiles_supported]

theorem Group.addAllLanguages_supported (languages : List Language) (groups : List Group) :
    Group.addAllLanguages languages (Group.allSupported groups) =
      Group.addAllLanguages languages groups := by
  rw [Group.addAllLanguages_eq, Group.addAllLanguages_eq, Group.allFiles_supported,
    spoken_supported]

theorem subtreeLanguages_supported (files : List File) (groups : List Group) :
    subtreeLanguages (files.map File.supported) (Group.allSupported groups) =
      subtreeLanguages files groups := by
  rw [subtreeLanguages, subtreeLanguages, sourceLanguages_supported,
    Group.addAllLanguages_supported]

variable (root : String)

mutual

theorem Group.preIncludes_supported : (group : Group) →
    group.supported.preIncludes root = group.preIncludes root
  | ⟨name, options, groups⟩ => by
      have path : (fun file : File => Session.Finding.preInclude (Path.anchor root file.path)) ∘
          File.supported = fun file => .preInclude (Path.anchor root file.path) :=
        File.comp_supported _ fun _ _ _ => rfl
      rw [Group.supported, Group.preIncludes, Group.preIncludes, NodeOptions.files_supported,
        filter_supported _ (fun _ _ _ => rfl), List.map_map, path,
        Group.allPreIncludes_supported groups]

theorem Group.allPreIncludes_supported : (groups : List Group) →
    Group.allPreIncludes root (Group.allSupported groups) = Group.allPreIncludes root groups
  | [] => rfl
  | group :: rest => by
      rw [Group.allSupported, Group.allPreIncludes, Group.allPreIncludes,
        Group.preIncludes_supported group, Group.allPreIncludes_supported rest]

end

mutual

theorem Group.collectIncludes_supported : (group : Group) →
    group.supported.collectIncludes root = group.collectIncludes root
  | ⟨name, options, groups⟩ => by
      rw [Group.supported, Group.collectIncludes, Group.collectIncludes,
        NodeOptions.files_supported, hasBuildableFiles_supported, Group.anyBuildable_supported,
        Classification.ofFiles_supported, Group.collectAllIncludes_supported groups]

theorem Group.collectAllIncludes_supported : (groups : List Group) →
    Group.collectAllIncludes root (Group.allSupported groups) =
      Group.collectAllIncludes root groups
  | [] => rfl
  | group :: rest => by
      rw [Group.allSupported, Group.collectAllIncludes, Group.collectAllIncludes,
        Group.collectIncludes_supported group, Group.collectAllIncludes_supported rest]

end

/-! ## Contexts -/

namespace Context

variable (context : Context)

theorem languages_supported : context.supported.languages = context.languages := by
  unfold languages Context.supported
  simp only [Group.addAllLanguages_supported, List.foldl_map, sourceLanguages_supported,
    Component.supported, NodeOptions.supported]

theorem interfaceIncludes_supported :
    context.supported.interfaceIncludes root = context.interfaceIncludes root := by
  unfold interfaceIncludes includes Context.supported
  simp only [Group.collectAllIncludes_supported, List.filter_map, List.map_map, Function.comp_def,
    Component.supported, NodeOptions.supported, hasBuildableFiles_supported,
    Classification.ofFiles_supported]

theorem inheritedFrom_supported (setting : Target.Setting) :
    Target.inheritedFrom setting context.supported = Target.inheritedFrom setting context := by
  unfold Target.inheritedFrom
  rw [interfaceIncludes_supported, languages_supported]
  rfl

end Context

end SolutionLists
