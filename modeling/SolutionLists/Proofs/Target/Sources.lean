import Mathlib.Data.List.Perm.Basic
import SolutionLists.Proofs.Target.Bundle

namespace SolutionLists

/-! Which sources the targets of a context compile: each source of its groups and
components is compiled by one target, once. -/

/-- Whether a file is a source and is not there to be copied. -/
def File.isBuiltSource (file : File) : Bool :=
  file.isSource && !file.isTemplate

namespace Context

def files (context : Context) : List File :=
  Group.allFiles context.groups ++ context.components.flatMap (·.options.files)

def sources (context : Context) : List File :=
  context.files.filter (·.isBuiltSource)

end Context

def LibraryKind.sources : LibraryKind → List String
  | object sources => sources
  | interface => []

/-- The library that a statement brings into being. -/
def Directive.library? : Directive → Option (String × LibraryKind)
  | addLibrary name kind => some (name, kind)
  | _ => none

/-! ## Buckets -/

theorem perm_sorted_by_key {α κ : Type} [DecidableEq κ] {key : α → κ} {keys : List κ}
    (distinct : keys.Nodup) {items : List α} (complete : ∀ item ∈ items, key item ∈ keys) :
    (keys.flatMap fun bucket => items.filter (key · = bucket)).Perm items := by
  induction keys generalizing items with
  | nil =>
      have empty : items = [] :=
        List.eq_nil_iff_forall_not_mem.mpr fun item member => nomatch complete item member
      rw [empty]
      rfl
  | cons first rest induction =>
      have parts := List.nodup_cons.mp distinct
      let others := items.filter fun item => !decide (key item = first)
      have otherKeys : ∀ item ∈ others, key item ∈ rest := by
        intro item member
        have inside := List.mem_filter.mp member
        refine (List.mem_cons.mp (complete item inside.1)).resolve_left ?_
        simpa using inside.2
      -- The buckets of the other keys do not change when the items of the first one leave.
      have same : (rest.flatMap fun bucket => items.filter (key · = bucket)) =
          rest.flatMap fun bucket => others.filter (key · = bucket) := by
        refine List.flatMap_congr fun bucket member => ?_
        rw [List.filter_filter]
        refine List.filter_congr fun item _ => ?_
        by_cases ofBucket : key item = bucket
        · have different : bucket ≠ first := fun equal => parts.1 (equal ▸ member)
          simp [ofBucket, different]
        · simp [ofBucket]
      rw [List.flatMap_cons, same]
      exact ((induction parts.2 otherKeys).append_left _).trans (List.filter_append_perm _ items)

namespace Classification

theorem source_ofFiles_perm (root : String) (files : List File) :
    ((ofFiles root files).source.toList.flatMap (·.2)).Perm
      ((files.filter fun file => file.isCompiled && !file.hasCustomOptions).map
        fun file => Path.anchor root file.path) := by
  let plain := files.filter fun file => file.isCompiled && !file.hasCustomOptions
  have bucket : ∀ language, (ofFiles root files).source.get language =
      (plain.filter (·.language = language)).map fun file => Path.anchor root file.path := by
    intro language
    rw [source_ofFiles, List.filter_filter]
    simp only [Bool.and_comm]
  rw [LanguageMap.flatMap_toList _ fun _ => rfl,
    List.flatMap_congr fun language _ => bucket language, ← List.map_flatMap]
  exact (perm_sorted_by_key (by decide) fun file _ => file.language.mem_buckets).map _

end Classification

namespace Target

/-! ## What is passed over -/

theorem isBuildable_of_isBuiltSource {file : File} (source : file.isBuiltSource = true) :
    file.isBuildable = true := by
  rw [File.isBuiltSource, Bool.and_eq_true] at source
  simp [File.isBuildable, source.1, source.2]

theorem sources_eq_nil {files : List File} (nothing : hasBuildableFiles files = false) :
    files.filter (·.isBuiltSource) = [] := by
  refine List.filter_eq_nil_iff.mpr fun file member source => ?_
  have none := List.any_eq_false.mp nothing file member
  exact none (isBuildable_of_isBuiltSource source)

theorem hasBuildableFiles_append (first second : List File) :
    hasBuildableFiles (first ++ second) =
      (hasBuildableFiles first || hasBuildableFiles second) :=
  List.any_append

mutual

theorem isBuildable_eq : (group : Group) → group.isBuildable = hasBuildableFiles group.files
  | ⟨_, options, groups⟩ => by
      rw [Group.isBuildable, Group.files, hasBuildableFiles_append, anyBuildable_eq groups]

theorem anyBuildable_eq : (groups : List Group) →
    Group.anyBuildable groups = hasBuildableFiles (Group.allFiles groups)
  | [] => rfl
  | group :: rest => by
      rw [Group.anyBuildable, Group.allFiles, hasBuildableFiles_append, isBuildable_eq group,
        anyBuildable_eq rest]

end

mutual

theorem sources_sitesOfGroup (around : List Branch) (name : String) : (group : Group) →
    (sitesOfGroup around name group).flatMap Site.sources =
      group.files.filter (·.isBuiltSource)
  | ⟨title, options, groups⟩ => by
      rw [sitesOfGroup]
      split
      case isTrue =>
        rw [List.flatMap_cons, sources_sitesOfGroups _ _ groups, Group.files, List.filter_append]
        rfl
      case isFalse nothing =>
        refine (sources_eq_nil ?_).symm
        rw [← isBuildable_eq, Group.isBuildable]
        exact Bool.eq_false_iff.mpr nothing

theorem sources_sitesOfGroups (around : List Branch) (start : String) : (groups : List Group) →
    (sitesOfGroups around start groups).flatMap Site.sources =
      (Group.allFiles groups).filter (·.isBuiltSource)
  | [] => rfl
  | group :: rest => by
      rw [sitesOfGroups, List.flatMap_append, sources_sitesOfGroup around _ group,
        sources_sitesOfGroups around start rest, Group.allFiles, List.filter_append]

end

theorem sources_sites (context : Context) :
    context.sites.flatMap Site.sources = context.sources := by
  have ofComponents : context.componentSites.flatMap Site.sources =
      (context.components.flatMap (·.options.files)).filter (·.isBuiltSource) := by
    rw [Context.componentSites, List.flatMap_map]
    induction context.components with
    | nil => rfl
    | cons component rest induction =>
        rw [List.flatMap_cons, List.filter_append, ← induction, List.filter_cons]
        split
        case isTrue => rfl
        case isFalse nothing =>
          rw [sources_eq_nil (Bool.eq_false_iff.mpr nothing), List.nil_append]
  rw [Context.sites, List.flatMap_append, ofComponents, Context.groupSites,
    sources_sitesOfGroups, Context.sources, Context.files, List.filter_append]

theorem files_sites {context : Context} {site : Site} (member : site ∈ context.sites) :
    ∀ file ∈ site.options.files, file ∈ context.files := by
  intro file inside
  rcases List.mem_append.mp member with group | component
  · exact List.mem_append_left _ (files_sitesOfGroups _ _ _ group file inside)
  · rcases List.mem_map.mp component with ⟨described, kept, rfl⟩
    refine List.mem_append_right _ (List.mem_flatMap.mpr ⟨described, ?_, inside⟩)
    exact (List.mem_filter.mp kept).1

/-! ## What targets compile -/

variable (setting : Setting) (context : Context)

theorem libraries_node (plan : Plan) :
    plan.directives.filterMap Directive.library? = [(plan.node.name, plan.kind)] := by
  simp [Plan.directives, Directive.library?, List.filterMap_cons,
    apply_ite (List.filterMap Directive.library?)]

theorem libraries_file (plan : Plan) (file : File) :
    (buildFile setting plan file).directives.filterMap Directive.library? =
      if file.hasCustomOptions then
        [(unitName plan.node.name file.path, .object [Path.anchor setting.root file.path])]
      else [] := by
  simp [buildFile, customUnit, Directive.library?, List.filterMap_cons, List.filterMap_map,
    Function.comp_def, apply_ite (List.filterMap Directive.library?),
    apply_ite Emission.directives]

namespace Site

/-- The sources that the target of a site compiles. -/
def plainSources (site : Site) : List File :=
  site.sources.filter (!·.hasCustomOptions)

/-- The units of a site that compile one source each. -/
def units (root : String) (site : Site) : List (String × LibraryKind) :=
  (site.sources.filter (·.hasCustomOptions)).map fun file =>
    (unitName site.target file.path, .object [Path.anchor root file.path])

end Site

theorem libraries_site (site : Site) :
    (site.directives setting context).filterMap Directive.library? =
      (site.target, (site.plan setting context).kind) :: site.units setting.root := by
  rw [filterMap_directives setting context _ site rfl, libraries_node]
  simp only [libraries_file, flatMap_ite]
  rfl

variable {setting} {context}

section Recognised

variable {site : Site}
  (recognised : ∀ file ∈ site.options.files, file.isSource = true → file.role = .source)
include recognised

theorem plainSources_eq :
    site.plainSources =
      site.options.files.filter fun file => file.isCompiled && !file.hasCustomOptions := by
  rw [Site.plainSources, Site.sources, List.filter_filter]
  refine List.filter_congr fun file member => ?_
  have same : file.isSource = decide (file.role = .source) :=
    Bool.eq_iff_iff.mpr ⟨fun source => decide_eq_true (recognised file member source),
      fun role => File.isSource_of_role (of_decide_eq_true role)⟩
  rw [File.isCompiled, same, Bool.and_comm]

theorem sources_kind :
    ((site.plan setting context).kind.sources).Perm
      (site.plainSources.map fun file => Path.anchor setting.root file.path) := by
  have sorted := Classification.source_ofFiles_perm setting.root site.options.files
  rw [← plainSources_eq recognised] at sorted
  unfold Plan.kind
  split
  case isTrue interface =>
    have empty : site.plainSources = [] := by
      refine List.filter_eq_nil_iff.mpr fun file source plain => ?_
      rw [interface_plan source (by simpa using plain)] at interface
      cases interface
    rw [empty]
    rfl
  case isFalse => exact sorted

end Recognised

/-! ## What the context compiles -/

theorem library_sources_site (site : Site)
    (recognised : ∀ file ∈ site.options.files, file.isSource = true → file.role = .source) :
    (((site.directives setting context).filterMap Directive.library?).flatMap (·.2.sources)).Perm
      (site.sources.map fun file => Path.anchor setting.root file.path) := by
  have units : (site.units setting.root).flatMap (·.2.sources) =
      (site.sources.filter (·.hasCustomOptions)).map
        fun file => Path.anchor setting.root file.path := by
    rw [Site.units, List.flatMap_map, List.map_eq_flatMap]
    rfl
  have parted := (List.filter_append_perm (·.hasCustomOptions) site.sources).map
    fun file => Path.anchor setting.root file.path
  rw [List.map_append] at parted
  rw [libraries_site, List.flatMap_cons, units]
  exact ((sources_kind recognised).append_right _).trans (List.perm_append_comm.trans parted)

end Target

open Target

/-- Each source of a context is compiled once: by the target of its group or component, or,
where it asks for options of its own, by a unit that compiles nothing else. -/
theorem sources_compiled_once (setting : Setting) (context : Context)
    (recognised : ∀ file ∈ context.files, file.isSource = true → file.role = .source) :
    let tree := Tree.build setting context
    let paths := fun files : List File => files.map fun file => Path.anchor setting.root file.path
    ((tree.directives.filterMap Directive.library?).flatMap (·.2.sources)).Perm
      (paths context.sources) ∧
    context.sites.flatMap Site.sources = context.sources ∧
    ∃ kindOf : Site → LibraryKind,
      (∀ site ∈ context.sites, (kindOf site).sources.Perm (paths site.plainSources)) ∧
      tree.groups.filterMap Directive.library? = context.groupSites.flatMap (fun site =>
        (site.target, kindOf site) :: site.units setting.root) ∧
      tree.components.filterMap Directive.library? = context.componentSites.flatMap (fun site =>
        (site.target, kindOf site) :: site.units setting.root) := by
  intro tree paths
  have atSite : ∀ site ∈ context.sites, ∀ file ∈ site.options.files,
      file.isSource = true → file.role = .source := by
    intro site member file inside
    exact recognised file (files_sites member file inside)
  have ofList : ∀ sites : List Site,
      (sites.flatMap (Site.directives setting context)).filterMap Directive.library? =
        sites.flatMap fun site =>
          (site.target, (site.plan setting context).kind) :: site.units setting.root := by
    intro sites
    rw [List.filterMap_flatMap]
    exact List.flatMap_congr fun site _ => libraries_site setting context site
  refine ⟨?_, sources_sites context, fun site => (site.plan setting context).kind,
    fun site member => sources_kind (atSite site member), ?_, ?_⟩
  · rw [directives_build, List.filterMap_flatMap, List.flatMap_assoc, ← sources_sites]
    dsimp only [paths]
    rw [List.map_flatMap]
    exact List.Perm.flatMap_left _ fun site member =>
      library_sources_site site (atSite site member)
  · rw [groups_build, ofList]
  · rw [components_build, ofList]

/-- A source with a unit of its own, a group whose only file is there to be copied, and a
component. -/
private def mixedSources : Context where
  groups :=
    [{ name := "App"
       options :=
         { files :=
             [{ path := "./main.c", category := "sourceC" },
               { path := "./start.s", category := "sourceAsm" },
               { path := "./unit.cpp", category := "sourceCpp", define := [{ name := "UNIT" }] }] }
       groups :=
         [{ name := "Copied"
            options :=
              { files :=
                  [{ path := "./stub.c", category := "sourceC", attr := "template" }] } }] }]
  components :=
    [{ identifier := "Library"
       options := { files := [{ path := "./lib.c", category := "source" }] } }]

theorem sources_compiled_once_mixed :
    (∀ file ∈ mixedSources.files, file.isSource = true → file.role = .source) ∧
    (((Tree.build ⟨"app", "GCC"⟩ mixedSources).directives.filterMap
      Directive.library?).flatMap (·.2.sources)).Perm
        (mixedSources.sources.map fun file => Path.anchor "app" file.path) ∧
    mixedSources.sources.map (·.path) = ["./main.c", "./start.s", "./unit.cpp", "./lib.c"] := by
  have recognised : ∀ file ∈ mixedSources.files, file.isSource = true → file.role = .source := by
    decide +kernel
  have once := sources_compiled_once ⟨"app", "GCC"⟩ mixedSources recognised
  exact ⟨recognised, once.1, by decide +kernel⟩

end SolutionLists
