import SolutionLists.Lists.Context
import SolutionLists.Proofs.Abstractions
import SolutionLists.Proofs.Classification.Buckets
import SolutionLists.Proofs.Languages
import SolutionLists.Proofs.Target.Linking

namespace SolutionLists

/-! Bundles and the sources that they serve. What a source is compiled with is what is
set nearest to its group or component; the bundle that carries it belongs to the context,
to the group or component itself, or to a group around it. -/

namespace Target

/-- A library with what it carries and the languages that it serves. -/
structure Bundle where
  owner : String
  carried : Abstractions
  served : List Language

def Bundle.directive (bundle : Bundle) : Directive :=
  .abstractionsBundle bundle.owner bundle.carried bundle.served

def bundle? : Directive → Option Bundle
  | .abstractionsBundle owner carried served => some ⟨owner, carried, served⟩
  | _ => none

/-- For each setting the value that is nearest to a site, on the way to the context. -/
def Site.resolved (context : Context) (site : Site) : Abstractions :=
  .nearest ((site.branch :: site.around).map (·.node.options.abstractions) ++
    [context.abstractions])

variable {setting : Setting} {context : Context}

/-! ## What a bundle has to carry -/

theorem abstractions_within (around : List Branch) :
    (inheritedWithin setting context around).abstractions =
      .nearest (around.map (·.node.options.abstractions) ++ [context.abstractions]) := by
  induction around with
  | nil => exact (Abstractions.nearest_singleton context.abstractions).symm
  | cons branch outer induction =>
      rw [List.map_cons, List.cons_append, Abstractions.nearest_cons, ← induction]
      rfl

theorem abstractions_plan (site : Site) :
    (site.plan setting context).abstractions = site.resolved context :=
  abstractions_within (site.branch :: site.around)

/-! ## Who owns it -/

theorem owner_within (around : List Branch) {owner : String} {carried : Abstractions}
    (owned : (inheritedWithin setting context around).owner = some (owner, carried)) :
    (owner = Target.context ∧ carried = context.abstractions ∧
      context.abstractions.isEmptyForAll context.languages = false) ∨
      ∃ outer : Site, outer.branch :: outer.around <:+ around ∧ owner = outer.target ∧
        (outer.plan setting context).ownsBundle = true ∧
        (outer.plan setting context).abstractions = carried := by
  -- On the way out the first group that makes a bundle is the owner.
  induction around with
  | nil =>
      simp only [inheritedWithin, inheritedFrom] at owned
      split at owned
      case isTrue => cases owned
      case isFalse set =>
        cases owned
        exact .inl ⟨rfl, rfl, Bool.eq_false_iff.mpr set⟩
  | cons branch rest induction =>
      have nearest : ((⟨branch, rest⟩ : Site).plan setting context).owner =
          some (owner, carried) := owned
      rw [Plan.owner] at nearest
      split at nearest
      case isTrue owns =>
        cases nearest
        exact .inr ⟨⟨branch, rest⟩, List.suffix_refl _, rfl, owns, rfl⟩
      case isFalse =>
        rcases induction nearest with ofContext | ⟨outer, inside, owns⟩
        · exact .inl ofContext
        · exact .inr ⟨outer, inside.trans (List.suffix_cons _ _), owns⟩

theorem owner_of_needed {plan : Plan} (shared : plan.fileAbstractions = false)
    (needed : plan.abstractions.isEmptyForAll plan.subtree = false) :
    ∃ owner, plan.owner = some (owner, plan.abstractions) := by
  cases around : plan.parent.owner with
  | none => exact ⟨plan.node.name, by simp [Plan.owner, Plan.ownsBundle, shared, needed, around]⟩
  | some held =>
      rcases held with ⟨owner, carried⟩
      by_cases same : carried = plan.abstractions
      · subst same
        exact ⟨owner, by simp [Plan.owner, Plan.ownsBundle, shared, needed, around]⟩
      · exact ⟨plan.node.name, by
          simp [Plan.owner, Plan.ownsBundle, shared, needed, around, same]⟩

/-! ## Which languages it serves -/

theorem Site.speaks {site : Site} {file : File} (source : file ∈ site.sources)
    (known : file.language ≠ .all) : ∀ single ∈ file.language.singles, file.Speaks single := by
  intro single ofFile
  have parts := (Site.mem_sources.mp source).2
  exact ⟨parts.1, parts.2, known, ofFile⟩

variable (setting context) in
theorem subtree_own {site : Site} {file : File} (source : file ∈ site.sources)
    (known : file.language ≠ .all) :
    ∀ single ∈ file.language.singles, single ∈ (site.plan setting context).subtree := by
  intro single ofFile
  refine mem_subtreeLanguages.mpr ⟨file, ?_, Site.speaks source known single ofFile⟩
  exact List.mem_append_left _ (Site.mem_sources.mp source).1

variable (setting context) in
theorem subtree_around {site outer : Site} {start : String}
    (inside : site ∈ sitesOfGroups (outer.branch :: outer.around) start outer.branch.groups)
    {file : File} (source : file ∈ site.sources) (known : file.language ≠ .all) :
    ∀ single ∈ file.language.singles, single ∈ (outer.plan setting context).subtree := by
  intro single ofFile
  refine mem_subtreeLanguages.mpr ⟨file, ?_, Site.speaks source known single ofFile⟩
  refine List.mem_append_right _ ?_
  exact files_sitesOfGroups _ _ _ inside file (Site.mem_sources.mp source).1

/-! ## Where it is made -/

variable (setting context) in
theorem directives_plan (plan : Plan) :
    ∃ before after, plan.directives = before ++ after ∧
      (plan.ownsBundle = true →
        .abstractionsBundle plan.node.name plan.abstractions plan.subtree ∈ before) ∧
      (plan.libraries ≠ [] → .linkLibraries plan.node.name plan.scope plan.libraries ∈ after) := by
  unfold Plan.directives
  refine ⟨_, _, List.append_assoc _ _ _, fun owns => ?_, fun some => ?_⟩
  · rw [if_pos owns]
    exact List.mem_append_right _ List.mem_cons_self
  · rw [if_neg some]
    exact List.mem_append_right _ List.mem_cons_self

theorem pair_sublist_flatMap {α β : Type} {values : List α} {statements : α → List β}
    {first second : α} {earlier later : β} (order : [first, second].Sublist values)
    (inFirst : earlier ∈ statements first) (inSecond : later ∈ statements second) :
    [earlier, later].Sublist (values.flatMap statements) := by
  have pair : [earlier, later].Sublist ([first, second].flatMap statements) := by
    rw [List.flatMap_cons, List.flatMap_cons, List.flatMap_nil, List.append_nil]
    exact (List.singleton_sublist.mpr inFirst).append (List.singleton_sublist.mpr inSecond)
  exact pair.trans (order.flatMap statements)

def Site.bundle (setting : Setting) (context : Context) (site : Site) : Bundle :=
  let plan := site.plan setting context
  ⟨site.target, plan.abstractions, plan.subtree⟩

theorem mem_directives_bundle {site : Site}
    (owns : (site.plan setting context).ownsBundle = true) :
    (site.bundle setting context).directive ∈ site.directives setting context := by
  rcases directives_plan (site.plan setting context) with ⟨before, after, parts, made, _⟩
  rw [Site.directives_eq, parts, List.append_assoc, List.append_assoc]
  exact List.mem_append_left _ (made owns)

variable (setting) in
theorem bundleOncePerTarget : OncePerTarget setting bundle? Bundle.owner where
  silent := rfl
  ofNode := by
    intro plan
    unfold Plan.directives
    by_cases owns : plan.ownsBundle
    · simp [bundle?, owns, List.filterMap_cons, apply_ite (List.filterMap bundle?)]
    · simp [bundle?, owns, List.filterMap_cons, apply_ite (List.filterMap bundle?)]
  ofFile := by
    intro plan file
    have none : (buildFile setting plan file).directives.filterMap bundle? = [] := by
      simp [buildFile, customUnit, bundle?, List.filterMap_cons, List.filterMap_map,
        Function.comp_def, apply_ite (List.filterMap bundle?), apply_ite Emission.directives]
    rw [none]
    exact List.nil_sublist _

theorem bundles_of_owner (distinct : (Tree.build setting context).targets.Nodup)
    {bundle : Bundle} (made : bundle.directive ∈ (Tree.build setting context).directives) :
    ((Tree.build setting context).directives.filterMap bundle?).filter
      (fun other => other.owner = bundle.owner) = [bundle] := by
  have once := (bundleOncePerTarget setting).nodup context distinct
  refine filter_key_eq_singleton (List.nodup_cons.mp once).2 ?_
  exact List.mem_filterMap.mpr ⟨_, made, rfl⟩

theorem bundles_of_context (distinct : (Tree.build setting context).targets.Nodup) :
    ((Tree.build setting context).directives.filterMap bundle?).filter
      (fun other => other.owner = Target.context) = [] := by
  have once := (bundleOncePerTarget setting).nodup context distinct
  refine List.filter_eq_nil_iff.mpr fun other member same => ?_
  exact (List.nodup_cons.mp once).1 (of_decide_eq_true same ▸ List.mem_map_of_mem member)

/-! ## What sources link -/

theorem bundle_of_owner {plan : Plan} (shared : plan.fileAbstractions = false) {owner : String}
    {carried : Abstractions} (owned : plan.owner = some (owner, carried)) :
    plan.bundle? = some (bundleOf owner) := by
  simp [Plan.bundle?, shared, owned]

theorem interface_plan {site : Site} {file : File} (source : file ∈ site.sources)
    (plain : file.hasCustomOptions = false) :
    (site.plan setting context).files.interface = false := by
  have parts := Site.mem_sources.mp source
  refine (Classification.interface_ofFiles setting.root site.options.files).trans ?_
  rw [Bool.not_eq_false', List.any_eq_true]
  refine ⟨file, parts.1, ?_⟩
  rw [File.isPlainSource, parts.2.1, parts.2.2, plain]
  rfl

theorem isCompiled_of_source {site : Site} {file : File} (source : file ∈ site.sources)
    (compiled : file.role = .source) : file.isCompiled = true := by
  rw [File.isCompiled, (Site.mem_sources.mp source).2.2, compiled]
  rfl

theorem libraries_plan {site : Site} {file : File} (source : file ∈ site.sources)
    (compiled : file.role = .source) (plain : file.hasCustomOptions = false)
    (set : (site.plan setting context).abstractions.isEmptyFor file.language = false) :
    (site.plan setting context).libraries =
      (site.plan setting context).bundle?.toList ++
        (site.plan setting context).files.library ++ (site.plan setting context).files.object := by
  let files := Classification.ofFiles setting.root site.options.files
  have spoken : ∀ single ∈ file.language.singles, single ∈ files.languages :=
    Classification.mem_languages_ofFiles setting.root (Site.mem_sources.mp source).1
      (isCompiled_of_source source compiled) plain
  have matters : (site.plan setting context).abstractions.isEmptyForAll files.languages = false :=
    Abstractions.isEmptyForAll_of_singles set spoken
  unfold Plan.libraries
  refine congrArg (· ++ _ ++ _) (if_pos ?_)
  rw [Bool.and_eq_true, Bool.not_eq_true', Bool.not_eq_true']
  exact ⟨interface_plan source plain, matters⟩

theorem link_unit {plan : Plan} {file : File} (custom : file.hasCustomOptions = true)
    (set : plan.abstractions.isEmptyFor file.language = false) {name : String}
    (served : plan.bundle? = some name) :
    .linkLibraries (unitName plan.node.name file.path) .shared [name] ∈
      (buildFile setting plan file).directives := by
  unfold buildFile customUnit
  simp [custom, set, served]

/-- A source that needs a bundle is compiled by a target that links it, after the bundle
where the site makes the bundle itself. -/
theorem link_site {site : Site} {file : File} (source : file ∈ site.sources)
    (compiled : file.role = .source)
    (set : (site.plan setting context).abstractions.isEmptyFor file.language = false)
    {name : String} (served : (site.plan setting context).bundle? = some name) :
    ∃ scope libraries, name ∈ libraries ∧
      .linkLibraries (site.compiling file) scope libraries ∈ site.directives setting context ∧
      ((site.plan setting context).ownsBundle = true →
        [(site.bundle setting context).directive,
          .linkLibraries (site.compiling file) scope libraries].Sublist
            (site.directives setting context)) := by
  rcases directives_plan (site.plan setting context) with ⟨before, after, parts, made, linked⟩
  have order : site.directives setting context =
      before ++ (after ++ (site.sources.flatMap fun file =>
        (buildFile setting (site.plan setting context) file).directives) ++ [.blank]) := by
    rw [Site.directives_eq, parts, List.append_assoc, List.append_assoc, List.append_assoc]
  have follows : ∀ {statement : Directive}, statement ∈ after ++ (site.sources.flatMap fun file =>
      (buildFile setting (site.plan setting context) file).directives) →
      statement ∈ site.directives setting context ∧
        ((site.plan setting context).ownsBundle = true →
          [(site.bundle setting context).directive, statement].Sublist
            (site.directives setting context)) := by
    intro statement member
    have later := List.mem_append_left [Directive.blank] member
    rw [order]
    refine ⟨List.mem_append_right _ later, fun owns => ?_⟩
    exact (List.singleton_sublist.mpr (made owns)).append (List.singleton_sublist.mpr later)
  cases custom : file.hasCustomOptions with
  | true =>
      have compiling : site.compiling file = unitName site.target file.path := if_pos custom
      rw [compiling]
      refine ⟨.shared, [name], List.mem_cons_self, follows (List.mem_append_right _ ?_)⟩
      exact List.mem_flatMap.mpr ⟨file, source, link_unit custom set served⟩
  | false =>
      have compiling : site.compiling file = site.target := if_neg (by simp [custom])
      have libraries := libraries_plan source compiled custom set
      have listed : name ∈ (site.plan setting context).libraries := by
        rw [libraries, served]
        simp
      rw [compiling]
      refine ⟨_, _, listed, follows (List.mem_append_left _ (linked ?_))⟩
      exact List.ne_nil_of_mem listed

theorem linked_source (distinct : (Tree.build setting context).targets.Nodup)
    {site : Site} (member : site ∈ context.sites) {file : File}
    (source : file ∈ site.sources) (compiled : file.role = .source)
    (set : (site.plan setting context).abstractions.isEmptyFor file.language = false)
    {name : String} (served : (site.plan setting context).bundle? = some name) :
    Directive.allLinkedBy (Tree.build setting context).directives (site.compiling file) =
      name :: if file.hasCustomOptions then [] else
        (site.plan setting context).files.library ++ (site.plan setting context).files.object := by
  cases custom : file.hasCustomOptions with
  | true =>
      rw [allLinkedBy_unit distinct member source custom, unitBundle, set, served]
      rfl
  | false =>
      have compiling : site.compiling file = site.target := if_neg (by simp [custom])
      rw [compiling, allLinkedBy_target distinct member,
        libraries_plan source compiled custom set, served]
      simp

variable (setting context) in
theorem compiled_site {site : Site} {file : File} (source : file ∈ site.sources)
    (compiled : file.role = .source) :
    ∃ sources, .addLibrary (site.compiling file) (.object sources) ∈
        site.directives setting context ∧
      Path.anchor setting.root file.path ∈ sources := by
  rw [Site.directives_eq, List.append_assoc]
  cases custom : file.hasCustomOptions with
  | true =>
      have compiling : site.compiling file = unitName site.target file.path := if_pos custom
      rw [compiling]
      refine ⟨[Path.anchor setting.root file.path], ?_, List.mem_cons_self⟩
      refine List.mem_append_right _ (List.mem_append_left _ ?_)
      refine List.mem_flatMap.mpr ⟨file, source, ?_⟩
      simp [buildFile, customUnit, custom, Site.target]
  | false =>
      have compiling : site.compiling file = site.target := if_neg (by simp [custom])
      have unit : (site.plan setting context).kind =
          .object ((site.plan setting context).files.source.toList.flatMap (·.2)) := by
        rw [Plan.kind, interface_plan source custom]
        rfl
      have listed := Classification.mem_source_ofFiles setting.root (Site.mem_sources.mp source).1
        (isCompiled_of_source source compiled) custom
      rcases LanguageMap.mem_get.mp listed with ⟨list, bucket, inside⟩
      have added : .addLibrary site.target (site.plan setting context).kind ∈
          (site.plan setting context).directives := by
        simp [Plan.directives, Site.target]
      rw [unit] at added
      rw [compiling]
      refine ⟨_, List.mem_append_left _ added, List.mem_flatMap.mpr ⟨_, bucket, inside⟩⟩

/-! ## Sources with abstractions of their own -/

theorem file_withAssemblyDefines (plan : Plan) (file : File) (properties : FileProperties) :
    (withAssemblyDefines setting plan file properties).file = properties.file := by
  unfold withAssemblyDefines
  dsimp only
  split
  · rfl
  · split <;> rfl

theorem language_withAssemblyDefines (plan : Plan) (file : File) (properties : FileProperties) :
    (withAssemblyDefines setting plan file properties).language = properties.language := by
  unfold withAssemblyDefines
  dsimp only
  split
  · rfl
  · split <;> rfl

theorem file_fileProperties (plan : Plan) (file : File) :
    (fileProperties setting plan file).file = Path.anchor setting.root file.path := by
  simp only [fileProperties, apply_ite FileProperties.file, file_withAssemblyDefines, ite_self]

theorem language_fileProperties (plan : Plan) (file : File) :
    (fileProperties setting plan file).language = file.language := by
  simp only [fileProperties, apply_ite FileProperties.language, language_withAssemblyDefines,
    ite_self]

theorem mem_buildFile {plan : Plan} {file : File}
    (given : (fileProperties setting plan file).isEmpty = false) :
    .sourceFileProperties (fileProperties setting plan file) ∈
      (buildFile setting plan file).directives := by
  unfold buildFile
  rw [Emission.directives_append, List.mem_append]
  refine .inr ?_
  rw [if_neg (by rw [given]; exact Bool.false_ne_true)]
  exact List.mem_cons_self

variable (setting) in
theorem properties_file {plan : Plan} (own : plan.fileAbstractions = true) {file : File}
    (set : (plan.abstractions.inherit file.abstractions).isEmptyFor file.language = false) :
    ∃ properties, .sourceFileProperties properties ∈ (buildFile setting plan file).directives ∧
      properties.file = Path.anchor setting.root file.path ∧
      properties.language = file.language ∧
      properties.abstractions = some (plan.abstractions.inherit file.abstractions) := by
  let properties := fileProperties setting plan file
  have carried : properties.abstractions =
      some (plan.abstractions.inherit file.abstractions) := by
    simp [properties, fileProperties, own, set]
  have written : properties.isEmpty = false := by
    simp [FileProperties.isEmpty, carried]
  exact ⟨properties, mem_buildFile written, file_fileProperties plan file,
    language_fileProperties plan file, carried⟩

theorem libraries_without_bundle (plan : Plan) (own : plan.fileAbstractions = true) :
    plan.libraries = plan.files.library ++ plan.files.object ∧
      ∀ file, unitBundle plan file = [] := by
  have none : plan.bundle? = none := if_pos own
  constructor
  · simp [Plan.libraries, none]
  · intro file
    simp [unitBundle, none]

/-! ## The two lists -/

variable (setting context) in
/-- One of the lists of a context: it is said site by site, each after those around it. -/
structure Listing (statements : List Directive) (sites : List Site) : Prop where
  said : statements = sites.flatMap (Site.directives setting context)
  within : ∀ site ∈ sites, site ∈ context.sites
  around : ∀ site ∈ sites, ∀ outer : Site,
    outer.branch :: outer.around <:+ site.around →
      site ∈ sitesOfGroups (outer.branch :: outer.around) (outer.target ++ "_")
          outer.branch.groups ∧
        [outer, site].Sublist sites

variable (setting context) in
theorem listing_groups :
    Listing setting context (Tree.build setting context).groups context.groupSites where
  said := groups_build setting context
  within _ := List.mem_append_left _
  around _ member _ := Context.around_groupSites member

variable (setting context) in
theorem listing_components :
    Listing setting context (Tree.build setting context).components context.componentSites where
  said := components_build setting context
  within _ := List.mem_append_right _
  around site member outer enclosing := by
    rw [Context.around_componentSites member] at enclosing
    exact absurd enclosing (by simp)

theorem listing_of_mem {root : String} {toolchain : SelectedToolchain}
    {list : List Directive × List Site}
    (isList : list ∈
      [((ContextPlan.make context root toolchain).tree.groups, context.groupSites),
        ((ContextPlan.make context root toolchain).tree.components, context.componentSites)]) :
    Listing { root, toolchain := toolchain.name } context list.1 list.2 := by
  simp only [List.mem_cons, List.not_mem_nil, or_false] at isList
  rcases isList with rfl | rfl
  · exact listing_groups _ context
  · exact listing_components _ context

theorem Listing.sublist {statements : List Directive} {sites : List Site}
    (listing : Listing setting context statements sites) {site : Site}
    (member : site ∈ sites) : (site.directives setting context).Sublist statements := by
  have only := (List.singleton_sublist.mpr member).flatMap (Site.directives setting context)
  rw [List.flatMap_singleton, ← listing.said] at only
  exact only

theorem Listing.mem_directives {statements : List Directive} {sites : List Site}
    (listing : Listing setting context statements sites) {statement : Directive}
    (member : statement ∈ statements) :
    statement ∈ (Tree.build setting context).directives := by
  rw [listing.said] at member
  rcases List.mem_flatMap.mp member with ⟨site, inside, made⟩
  rw [directives_build]
  exact List.mem_flatMap.mpr ⟨site, listing.within site inside, made⟩

end Target

end SolutionLists
