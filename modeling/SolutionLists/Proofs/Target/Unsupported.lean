import SolutionLists.Proofs.Supported
import SolutionLists.Proofs.Target.UnitIncludes

namespace SolutionLists.Target

/-! Entries that are not supported for assembly sources are told of and passed over, but for
one place: a source with a unit of its own has the parent's include directories written out
less those that it deletes. -/

/-! ## Two walks -/

/-- Two parts of walks that find out the same. What they say goes together statement by
statement, and the second passes nothing over. -/
structure Emission.Agrees (related : Directive → Directive → Prop)
    (first second : Emission) : Prop where
  directives : List.Forall₂ related first.directives second.directives
  findings : second.findings = first.findings
  silent : second.warnings = []

namespace Emission.Agrees

variable {related : Directive → Directive → Prop}

theorem append {first second more other : Emission} (here : Agrees related first second)
    (later : Agrees related more other) : Agrees related (first ++ more) (second ++ other) where
  directives := List.rel_append here.directives later.directives
  findings := by
    rw [Emission.findings_append, Emission.findings_append, here.findings, later.findings]
  silent := by
    change second.warnings ++ other.warnings = []
    rw [here.silent, later.silent]
    rfl

theorem join {α : Type} {items : List α} {first second : α → Emission}
    (each : ∀ item ∈ items, Agrees related (first item) (second item)) :
    Agrees related (Emission.join (items.map first)) (Emission.join (items.map second)) := by
  induction items with
  | nil => exact ⟨.nil, rfl, rfl⟩
  | cons item rest induction =>
      have later := induction fun other member => each other (List.mem_cons_of_mem _ member)
      exact (each item List.mem_cons_self).append later

theorem of_silent (reflexive : ∀ statement, related statement statement) {emission : Emission}
    (silent : emission.warnings = []) : Agrees related emission emission where
  directives := List.forall₂_same.mpr fun statement _ => reflexive statement
  findings := rfl
  silent := silent

end Emission.Agrees

/-! ## One source -/

/-- The statements about the include directories of the unit of an assembly source, with the
directories that the source deletes and without. -/
inductive Departs (setting : Setting) (context : Context) : Directive → Directive → Prop where
  | unit {site : Site} {file : File} {own : ScopeMap} (member : site ∈ context.sites)
      (source : file ∈ site.sources) (assembly : file.language = .asm)
      (adds : file.addPath ≠ [] ∨ file.addPathAsm ≠ []) (deletes : file.delPath ≠ []) :
      Departs setting context
        (.includeDirectories (unitName site.target file.path) .shared
          (some (.resolved ((site.plan setting context).unitIncludes.without
            (Path.anchorAll setting.root file.delPath)))) own)
        (.includeDirectories (unitName site.target file.path) .shared
          (some (.inherited site.target)) own)

/-- Statements that are the same, or depart from each other. -/
def Related (setting : Setting) (context : Context) (first second : Directive) : Prop :=
  first = second ∨ Departs setting context first second

variable {setting : Setting} {context : Context}

theorem Related.refl (statement : Directive) : Related setting context statement statement :=
  .inl rfl

/-- The plan of a node in which no assembly source asks for what is not supported. -/
def Plan.supported (plan : Plan) : Plan :=
  { plan with node := { plan.node with options := plan.node.options.supported } }

theorem fileProperties_supported (plan : Plan) (file : File) :
    fileProperties setting plan.supported file.supported = fileProperties setting plan file := by
  have unread : fileProperties setting plan.supported file.supported =
      fileProperties setting plan file.supported := rfl
  rw [unread, File.read_supported (fileProperties setting plan) fun _ _ _ => rfl]

theorem unsupported_supported {file : File} (source : file.isSource = true) :
    unsupported setting file.supported = [] := by
  unfold File.supported
  split
  case isTrue => simp [unsupported]
  case isFalse other =>
    have language : file.language ≠ .asm := by
      intro assembly
      apply other
      rw [File.isAssembled, source, assembly]
      rfl
    exact if_neg language

variable (setting) in
theorem related_unitStatement {site : Site} {file : File} (member : site ∈ context.sites)
    (source : file ∈ site.sources) (custom : file.hasCustomOptions = true)
    (assembled : file.isAssembled = true) :
    let plan := site.plan setting context
    Related setting context (plan.unitStatement setting file)
      (plan.supported.unitStatement setting file.supported) := by
  intro plan
  have assembly := File.language_of_isAssembled assembled
  have adds : file.addPath ≠ [] ∨ file.addPathAsm ≠ [] := by
    simpa [File.hasCustomOptions, assembly] using custom
  rw [File.supported, if_pos assembled]
  by_cases spared : file.delPath = []
  · refine .inl ?_
    rw [Plan.unitStatement, Plan.unitMerged, spared]
    rfl
  · rw [unitStatement_of_deletes spared]
    exact .inr (.unit member source assembly adds spared)

theorem directives_customUnit {file : File} (assembly : file.language = .asm) (plan : Plan) :
    let unit := unitName plan.node.name file.path
    (customUnit setting plan file).directives =
      [.blank, .comment ("file " ++ file.path),
        .addLibrary unit (.object [Path.anchor setting.root file.path])] ++
      plan.unitStatement setting file ::
        .compileOptions unit .shared (some plan.node.name) {} [] ::
          if plan.abstractions.isEmptyFor .asm then []
          else plan.bundle?.toList.map fun bundle => .linkLibraries unit .shared [bundle] := by
  unfold customUnit
  rw [assembly]
  rfl

theorem agrees_customUnit {site : Site} {file : File} (member : site ∈ context.sites)
    (source : file ∈ site.sources) (custom : file.hasCustomOptions = true) :
    let plan := site.plan setting context
    (customUnit setting plan file).Agrees (Related setting context)
      (customUnit setting plan.supported file.supported) := by
  intro plan
  by_cases assembled : file.isAssembled = true
  · have assembly := File.language_of_isAssembled assembled
    have statement := related_unitStatement setting member source custom assembled
    have same : file.supported.path = file.path :=
      File.read_supported File.path (fun _ _ _ => rfl) file
    have language : file.supported.language = file.language :=
      File.read_supported File.language (fun _ _ _ => rfl) file
    have findings : (customUnit setting plan.supported file.supported).findings =
        (customUnit setting plan file).findings := by
      unfold customUnit
      rw [same]
      rfl
    refine ⟨?_, findings, rfl⟩
    rw [directives_customUnit assembly, directives_customUnit (language.trans assembly), same]
    refine List.rel_append (List.forall₂_same.mpr fun other _ => .refl other) ?_
    exact .cons statement (List.forall₂_same.mpr fun other _ => .refl other)
  · rw [File.supported, if_neg assembled]
    exact .of_silent Related.refl rfl

theorem agrees_buildFile {site : Site} {file : File} (member : site ∈ context.sites)
    (source : file ∈ site.sources) :
    let plan := site.plan setting context
    (buildFile setting plan file).Agrees (Related setting context)
      (buildFile setting plan.supported file.supported) := by
  intro plan
  unfold buildFile
  rw [File.hasCustomOptions_supported, fileProperties_supported]
  refine .append ?_ ⟨List.forall₂_same.mpr fun other _ => .refl other, rfl, ?_⟩
  · split
    case isTrue custom => exact agrees_customUnit member source custom
    case isFalse => exact .of_silent Related.refl rfl
  · exact unsupported_supported (Site.mem_sources.mp source).2.1

/-! ## Nodes -/

variable (setting) in
theorem agrees_buildNode {site : Site} (member : site ∈ context.sites) :
    let plan := site.plan setting context
    (buildNode setting plan).Agrees (Related setting context)
      (buildNode setting plan.supported) := by
  intro plan
  have sources : (plan.supported.node.options.files.filter
        fun file => file.isSource && !file.isTemplate) = site.sources.map File.supported :=
    filter_supported _ (fun _ _ _ => rfl) site.options.files
  unfold buildNode
  dsimp only
  rw [sources, List.map_map]
  refine .append (.append ?_ ?_) (.of_silent Related.refl rfl)
  · exact .of_silent Related.refl rfl
  · exact .join fun file source => agrees_buildFile member source

variable (setting) in
theorem make_supported (parent : Inherited) (node : Node) (groups : List Group) :
    Plan.make setting parent { node with options := node.options.supported }
        (Group.allSupported groups) =
      (Plan.make setting parent node groups).supported := by
  unfold Plan.make
  simp only [NodeOptions.files_supported, Classification.ofFiles_supported,
    hasFileAbstractions_supported, subtreeLanguages_supported, Group.isEmpty_allSupported]
  rfl

mutual

theorem agrees_buildGroup (around : List Branch) (name : String) : (group : Group) →
    (∀ site ∈ sitesOfGroup around name group, site ∈ context.sites) →
    (buildGroup setting (inheritedWithin setting context around) name group).Agrees
      (Related setting context)
      (buildGroup setting (inheritedWithin setting context around) name group.supported)
  | ⟨title, options, groups⟩, within => by
      let branch : Branch := ⟨Node.ofGroup name ⟨title, options, groups⟩, groups⟩
      let parent := inheritedWithin setting context around
      have made : Plan.make setting parent
            (Node.ofGroup name ⟨title, options.supported, Group.allSupported groups⟩)
            (Group.allSupported groups) =
          (Plan.make setting parent branch.node groups).supported :=
        make_supported setting parent branch.node groups
      rw [sitesOfGroup] at within
      rw [Group.supported, buildGroup, buildGroup, NodeOptions.files_supported,
        hasBuildableFiles_supported, Group.anyBuildable_supported,
        Classification.findings_supported, Group.allPreIncludes_supported]
      split
      case isTrue built =>
        rw [if_pos built] at within
        have below := agrees_buildGroups (branch :: around) (name ++ "_") groups
          fun site member => within site (List.mem_cons_of_mem _ member)
        have here := agrees_buildNode setting (within ⟨branch, around⟩ List.mem_cons_self)
        dsimp only
        rw [made]
        refine .append (.append (.append ?_ here) below) ?_
        · exact .of_silent Related.refl rfl
        · exact .of_silent Related.refl rfl
      case isFalse => exact .of_silent Related.refl rfl

theorem agrees_buildGroups (around : List Branch) (start : String) : (groups : List Group) →
    (∀ site ∈ sitesOfGroups around start groups, site ∈ context.sites) →
    (buildGroups setting (inheritedWithin setting context around) start groups).Agrees
      (Related setting context)
      (buildGroups setting (inheritedWithin setting context around) start
        (Group.allSupported groups))
  | [], _ => .of_silent Related.refl rfl
  | group :: rest, within => by
      rw [sitesOfGroups] at within
      rw [Group.allSupported, buildGroups, buildGroups, Group.name_supported]
      refine .append ?_ ?_
      · exact agrees_buildGroup around _ group fun site member =>
          within site (List.mem_append_left _ member)
      · exact agrees_buildGroups around start rest fun site member =>
          within site (List.mem_append_right _ member)

end

theorem agrees_buildComponent {component : Component} (member : component ∈ context.components) :
    (buildComponent setting (inheritedFrom setting context) component).Agrees
      (Related setting context)
      (buildComponent setting (inheritedFrom setting context) component.supported) := by
  let node := Node.ofComponent component
  have supported : Node.ofComponent component.supported =
      { node with options := node.options.supported } := rfl
  have made := make_supported setting (inheritedFrom setting context) node []
  have files : component.supported.options.files =
      component.options.files.map File.supported := rfl
  unfold buildComponent
  rw [files, hasBuildableFiles_supported, Classification.findings_supported, supported]
  split
  case isTrue built =>
    have listed : (⟨⟨node, []⟩, []⟩ : Site) ∈ context.sites :=
      List.mem_append_right _
        (List.mem_map.mpr ⟨component, List.mem_filter.mpr ⟨member, built⟩, rfl⟩)
    have here := agrees_buildNode setting listed
    rw [Group.allSupported] at made
    dsimp only
    rw [made]
    refine .append (.append ?_ here) ?_
    · exact .of_silent Related.refl rfl
    · exact .of_silent Related.refl rfl
  case isFalse => exact .of_silent Related.refl rfl

/-! ## The two trees -/

variable (setting context)

theorem related_groups :
    (buildGroups setting (inheritedFrom setting context) "Group_" context.groups).Agrees
      (Related setting context)
      (buildGroups setting (inheritedFrom setting context) "Group_" context.supported.groups) :=
  agrees_buildGroups [] "Group_" context.groups fun _ member => List.mem_append_left _ member

theorem related_components :
    (Emission.join (context.components.map
        (buildComponent setting (inheritedFrom setting context)))).Agrees
      (Related setting context)
      (Emission.join (context.supported.components.map
        (buildComponent setting (inheritedFrom setting context)))) := by
  rw [Context.supported, List.map_map]
  exact .join fun component member => agrees_buildComponent member

variable {setting context} in
theorem eq_of_related {first second : List Directive}
    (related : List.Forall₂ (Related setting context) first second)
    (spared : ∀ site ∈ context.sites, ∀ file ∈ site.sources, file.language = .asm →
      file.addPath ≠ [] ∨ file.addPathAsm ≠ [] → file.delPath = []) : second = first := by
  have same : List.Forall₂ (· = ·) first second := by
    refine related.imp fun one other pair => ?_
    rcases pair with equal | departs
    · exact equal
    · cases departs with
      | unit member source assembly adds deletes =>
          exact absurd (spared _ member _ source assembly adds) deletes
  rw [List.forall₂_eq_eq_eq] at same
  exact same.symm

end SolutionLists.Target

namespace SolutionLists

open Target

/-- Without the entries that are not supported for assembly sources a context finds out the
same and says the same, apart from the include directories of assembly sources that add
directories as well: their units refer to the parent instead of writing out what is left. -/
theorem unsupported_overrides_ignored (setting : Setting) (context : Context) :
    let tree := Tree.build setting context
    let other := Tree.build setting context.supported
    other.session = tree.session ∧ other.warnings = [] ∧
      List.Forall₂ (Related setting context) tree.groups other.groups ∧
      List.Forall₂ (Related setting context) tree.components other.components ∧
      ((∀ site ∈ context.sites, ∀ file ∈ site.sources, file.language = .asm →
          file.addPath ≠ [] ∨ file.addPathAsm ≠ [] → file.delPath = []) →
        other.groups = tree.groups ∧ other.components = tree.components) := by
  intro tree other
  have groups := related_groups setting context
  have components := related_components setting context
  have constructed : Classification.findings setting.root context.supported.constructedFiles =
      Classification.findings setting.root context.constructedFiles :=
    Classification.findings_supported setting.root context.constructedFiles
  have built : other =
      { groups := (buildGroups setting (inheritedFrom setting context) "Group_"
          context.supported.groups).directives
        components := (Emission.join (context.supported.components.map
          (buildComponent setting (inheritedFrom setting context)))).directives
        session := tree.session
        warnings := [] } := by
    unfold other Tree.build
    dsimp only
    rw [Context.inheritedFrom_supported, constructed, groups.findings, components.findings,
      groups.silent, components.silent]
    rfl
  rw [built]
  refine ⟨rfl, rfl, groups.directives, components.directives, fun spared => ?_⟩
  exact ⟨eq_of_related groups.directives spared, eq_of_related components.directives spared⟩

/-- A group whose assembly source deletes a directory of the group, and adds others. -/
private def deletingAssembly (added : List String) : Context where
  groups :=
    [{ name := "App"
       options :=
         { files :=
             [{ path := "./startup.s", category := "sourceAsm", undefine := ["FLAG"],
                addPathAsm := added, delPath := ["./inc"] }] } }]

private def assemblySetting : Setting where
  root := "project"
  toolchain := "GCC"

theorem unsupported_overrides_ignored_without_unit :
    let tree := Tree.build assemblySetting (deletingAssembly [])
    tree.warnings.length = 2 ∧
      (Tree.build assemblySetting (deletingAssembly []).supported).groups = tree.groups := by
  have spared : ∀ site ∈ (deletingAssembly []).sites, ∀ file ∈ site.sources,
      file.language = .asm → file.addPath ≠ [] ∨ file.addPathAsm ≠ [] → file.delPath = [] := by
    decide +kernel
  rcases unsupported_overrides_ignored assemblySetting (deletingAssembly []) with
    ⟨-, -, -, -, same⟩
  exact ⟨by decide +kernel, (same spared).1⟩

/-- A directory that an assembly source deletes does count for its unit. -/
theorem assembly_unit_heeds_deletions :
    ¬ ∀ (setting : Setting) (context : Context),
      (Tree.build setting context.supported).directives =
          (Tree.build setting context).directives ∧
        (Tree.build setting context.supported).session = (Tree.build setting context).session := by
  intro always
  have same := (always assemblySetting (deletingAssembly ["./asm"])).1
  have different : (Tree.build assemblySetting (deletingAssembly ["./asm"]).supported).directives ≠
      (Tree.build assemblySetting (deletingAssembly ["./asm"])).directives := by
    decide +kernel
  exact different same

end SolutionLists
