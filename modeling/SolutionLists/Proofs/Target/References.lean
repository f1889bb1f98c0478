import SolutionLists.Proofs.Target.Discovery
import SolutionLists.Proofs.Target.InTurn
import SolutionLists.Proofs.Target.LinkOrder
import SolutionLists.Proofs.Target.Serving

namespace SolutionLists

/-! The statements of a context refer to what stands in front of them: targets that have
been brought into being, options that have been said, bundles that have been made. -/

namespace Target

/-! ## What statements refer to -/

/-- The targets that there are after some statements. -/
def known (before : List Directive) : List String :=
  Target.context :: before.filterMap Directive.definedTarget?

/-- Whether the options of a target have been said. -/
def SaysOptions (before : List Directive) (target : String) : Prop :=
  ∃ scope parent misc preIncludes,
    .compileOptions target scope parent misc preIncludes ∈ before

/-- Whether the bundle of an owner is there: it has been made, or it is that of the context
and `written`. -/
def HasBundle (written : Prop) (before : List Directive) (owner : String) : Prop :=
  (∃ carried served, .abstractionsBundle owner carried served ∈ before) ∨
    owner = Target.context ∧ written

/-- The libraries and objects among the files of a site. -/
def Site.prebuilt (root : String) (site : Site) : List String :=
  let files := Classification.ofFiles root site.options.files
  files.library ++ files.object

/-- Whether all that a statement refers to is there before it. -/
def RefersBack (context : Context) (root : String) (written : Prop) (before : List Directive) :
    Directive → Prop
  | .comment _ | .blank | .sourceFileProperties _ | .addLibrary _ _ => True
  | .includeDirectories target _ parent _ =>
      target ∈ known before ∧ ∀ outer, parent = some (.inherited outer) → outer ∈ known before
  | .compileDefinitions target _ parent _ =>
      target ∈ known before ∧ ∀ outer, parent = some (.inherited outer) → outer ∈ known before
  | .abstractionsBundle owner _ _ => owner ∈ known before
  | .compileOptions target _ parent _ _ =>
      target ∈ known before ∧ ∀ outer, parent = some outer →
        outer ∈ known before ∧ (outer = Target.context ∨ SaysOptions before outer)
  | .linkLibraries target _ libraries =>
      target ∈ known before ∧ ∃ site ∈ context.sites, target ∈ site.targets ∧
        ∃ owners : List String,
          libraries = owners.map bundleOf ++
            (if target = site.target then site.prebuilt root else []) ∧
          ∀ owner ∈ owners, HasBundle written before owner

theorem mem_known {before : List Directive} {target : String} :
    target ∈ known before ↔ target = Target.context ∨ ∃ kind, .addLibrary target kind ∈ before := by
  rw [known, List.mem_cons, List.mem_filterMap]
  refine or_congr_right ⟨?_, fun ⟨kind, member⟩ => ⟨_, member, rfl⟩⟩
  rintro ⟨statement, member, defines⟩
  cases statement with
  | addLibrary name kind =>
      cases defines
      exact ⟨kind, member⟩
  | _ => cases defines

section Kept

variable {before after : List Directive} (kept : before ⊆ after) {target : String}
include kept

theorem mem_known_of_subset (there : target ∈ known before) : target ∈ known after := by
  rw [mem_known] at there ⊢
  exact there.imp_right fun ⟨kind, member⟩ => ⟨kind, kept member⟩

theorem SaysOptions.of_subset (said : SaysOptions before target) : SaysOptions after target := by
  rcases said with ⟨scope, parent, misc, preIncludes, member⟩
  exact ⟨scope, parent, misc, preIncludes, kept member⟩

end Kept

/-! ## What is there before a site -/

variable {setting : Setting} {context : Context} {earlier : List Site} {site : Site}

theorem plan_directives_subset (site : Site) :
    (site.plan setting context).directives ⊆ site.directives setting context := by
  intro statement member
  rw [Site.directives_eq, List.append_assoc]
  exact List.mem_append_left _ member

theorem directives_subset (member : site ∈ earlier) :
    site.directives setting context ⊆ earlier.flatMap (Site.directives setting context) :=
  fun _ inside => List.mem_flatMap.mpr ⟨site, member, inside⟩

theorem compileOptions_plan {plan : Plan} (stated : plan.saysOptions = true) :
    .compileOptions plan.node.name plan.scope (some plan.parent.target)
      plan.node.options.misc plan.files.preIncludeLocal ∈ plan.directives := by
  simp [Plan.directives, stated]

theorem saysOptions_plan {plan : Plan} (stated : plan.saysOptions = true) :
    SaysOptions plan.directives plan.node.name :=
  ⟨_, _, _, _, compileOptions_plan stated⟩

section Parent

variable (setting context) (enclosed : Enclosed [] earlier site)
include enclosed

theorem enclosing_met {outer : Branch} {rest : List Branch}
    (enclosing : outer :: rest <:+ site.around) :
    ⟨outer, rest⟩ ∈ earlier ∧ outer.node.kind = .group ∧ outer.groups ≠ [] :=
  (enclosed outer rest enclosing).resolve_left (by simp)

theorem parent_known :
    site.parent ∈ known (earlier.flatMap (Site.directives setting context)) ∧
      (site.parent = Target.context ∨
        SaysOptions (earlier.flatMap (Site.directives setting context)) site.parent) := by
  unfold Site.parent
  split
  case h_1 => exact ⟨List.mem_cons_self, .inl rfl⟩
  case h_2 outer rest around =>
    have within : outer :: rest <:+ site.around := around ▸ List.suffix_refl (outer :: rest)
    rcases enclosing_met enclosed within with ⟨met, isGroup, some⟩
    let plan := Site.plan setting context ⟨outer, rest⟩
    have kept : plan.directives ⊆ earlier.flatMap (Site.directives setting context) :=
      List.Subset.trans (plan_directives_subset _) (directives_subset met)
    have stated : plan.saysOptions = true := by
      have hasGroups : plan.hasGroups = true := by
        simp [plan, Site.plan, Plan.make, some]
      simp [Plan.saysOptions, hasGroups, plan, Site.node, isGroup]
    refine ⟨mem_known.mpr (.inr ⟨_, kept (List.mem_cons_of_mem _ List.mem_cons_self)⟩), .inr ?_⟩
    exact (saysOptions_plan stated).of_subset kept

end Parent

/-- The bundle that a site links is made at the site, at one around it, or with the
context. -/
theorem hasBundle_owner (enclosed : Enclosed [] earlier site) {written : Prop}
    (writes : context.abstractions.isEmptyForAll context.languages = false → written)
    {owner : String} {carried : Abstractions}
    (owned : (site.plan setting context).owner = some (owner, carried))
    {before : List Directive}
    (kept : earlier.flatMap (Site.directives setting context) ⊆ before)
    (made : (site.plan setting context).ownsBundle = true →
      (site.bundle setting context).directive ∈ before) :
    HasBundle written before owner := by
  rcases owner_within (site.branch :: site.around) owned with
    ⟨rfl, _, set⟩ | ⟨outer, enclosing, rfl, owns, _⟩
  · exact .inr ⟨rfl, writes set⟩
  · let plan := outer.plan setting context
    refine .inl ⟨plan.abstractions, plan.subtree, ?_⟩
    rcases List.suffix_cons_iff.mp enclosing with same | around
    · rcases outer with ⟨branch, outside⟩
      rcases List.cons.inj same with ⟨rfl, rfl⟩
      exact made owns
    · have met := (enclosing_met enclosed around).1
      exact kept (directives_subset met (mem_directives_bundle owns))

/-! ## The statements of a site -/

theorem eq_of_inherited {α : Type} {whole : Prop} [Decidable whole] {target outer : String}
    {rest : α}
    (lazily : (if whole then ParentPart.inherited target else .resolved rest) =
      .inherited outer) : outer = target := by
  split at lazily
  · cases lazily
    rfl
  · cases lazily

/-- The owner of the bundle that sources of a node link. -/
def Plan.bundleOwner? (plan : Plan) : Option String :=
  if plan.fileAbstractions then none else plan.owner.map (·.1)

theorem bundle?_eq (plan : Plan) : plan.bundle? = plan.bundleOwner?.map bundleOf := by
  unfold Plan.bundle? Plan.bundleOwner?
  split
  · rfl
  · rw [Option.map_map]
    rfl

theorem libraries_owners (plan : Plan) :
    ∃ owners : List String, (∀ owner ∈ owners, owner ∈ plan.bundleOwner?) ∧
      plan.libraries = owners.map bundleOf ++ (plan.files.library ++ plan.files.object) := by
  unfold Plan.libraries
  dsimp only
  split
  · refine ⟨plan.bundleOwner?.toList, by simp, ?_⟩
    rw [bundle?_eq, Option.toList_map, List.append_assoc]
  · exact ⟨[], by simp, rfl⟩

/-- What a plan finds in front of its statements: the target that it takes its settings
from, and what makes the bundle that it links. -/
structure Grounded (written : Prop) (before : List Directive) (plan : Plan) : Prop where
  known_parent : plan.parent.target ∈ known before
  options_parent : plan.parent.target = Target.context ∨ SaysOptions before plan.parent.target
  includes_parent : ∀ outer, plan.includes.parent = .inherited outer → outer = plan.parent.target
  defines_parent : ∀ outer, plan.defines.parent = .inherited outer → outer = plan.parent.target
  hasBundle : ∀ after, before ⊆ after →
    (plan.ownsBundle = true →
      .abstractionsBundle plan.node.name plan.abstractions plan.subtree ∈ after) →
    ∀ owner ∈ plan.bundleOwner?, HasBundle written after owner

variable (setting) in
theorem grounded_site (enclosed : Enclosed [] earlier site) {written : Prop}
    (writes : context.abstractions.isEmptyForAll context.languages = false → written) :
    Grounded written (earlier.flatMap (Site.directives setting context))
      (site.plan setting context) where
  known_parent := by
    rw [Site.plan_parent_target]
    exact (parent_known setting context enclosed).1
  options_parent := by
    rw [Site.plan_parent_target]
    exact (parent_known setting context enclosed).2
  includes_parent _ := eq_of_inherited
  defines_parent _ := eq_of_inherited
  hasBundle after kept made owner linked := by
    unfold Plan.bundleOwner? at linked
    split at linked
    case isTrue => cases linked
    case isFalse =>
      rcases Option.map_eq_some_iff.mp linked with ⟨⟨_, carried⟩, owned, rfl⟩
      exact hasBundle_owner enclosed writes owned kept made

theorem saysOptions_of_custom {file : File} (source : file ∈ site.sources)
    (recognised : file.role = .source) (custom : file.hasCustomOptions = true) :
    (site.plan setting context).saysOptions = true := by
  have kept : (site.options.files.any fun file => file.isCompiled && file.hasCustomOptions) =
      true := by
    refine List.any_eq_true.mpr ⟨file, (Site.mem_sources.mp source).1, ?_⟩
    rw [isCompiled_of_source source recognised, custom]
    rfl
  have listed : (site.plan setting context).files.custom.isEmpty = false := by
    refine (Classification.isEmpty_custom_ofFiles setting.root site.options.files).trans ?_
    rw [kept]
    rfl
  simp [Plan.saysOptions, listed]

theorem unitName_ne (node file : String) : unitName node file ≠ node := by
  intro same
  have longer := congrArg String.length same
  simp only [unitName, String.length_append] at longer
  have bar : "_".length = 1 := rfl
  omega

section Plan

variable {written : Prop} {before : List Directive} {plan : Plan}
  (grounded : Grounded written before plan) {root : String} (member : site ∈ context.sites)
  (named : plan.node.name = site.target)
include grounded member named

theorem refersBack_plan (files : plan.files.library ++ plan.files.object = site.prebuilt root) :
    InTurn (RefersBack context root written) before plan.directives := by
  have outside : ∀ more, plan.parent.target ∈ known (before ++ more) := fun more =>
    mem_known_of_subset (List.subset_append_left before more) grounded.known_parent
  have added : ∀ more, plan.node.name ∈ known (before ++
      (.comment plan.node.title :: .addLibrary plan.node.name plan.kind :: more)) :=
    fun more => mem_known.mpr (.inr ⟨plan.kind, by simp⟩)
  unfold Plan.directives
  -- In order: the target with its settings, its bundle, its options, what it links.
  refine inTurn_append.mpr ⟨inTurn_append.mpr ⟨inTurn_append.mpr ⟨?_, ?_⟩, ?_⟩, ?_⟩
  · refine ⟨trivial, trivial, ⟨?_, fun outer lazily => ?_⟩, ⟨?_, fun outer lazily => ?_⟩, trivial⟩
    · simpa using added []
    · rw [grounded.includes_parent outer (Option.some.inj lazily)]
      simpa using outside _
    · simpa using added _
    · rw [grounded.defines_parent outer (Option.some.inj lazily)]
      simpa using outside _
  · exact inTurn_ite (fun _ => ⟨added _, trivial⟩) fun _ => trivial
  · refine inTurn_ite (fun _ => ⟨⟨added _, fun outer same => ?_⟩, trivial⟩) fun _ => trivial
    cases same
    refine ⟨outside _, grounded.options_parent.imp_right fun said => ?_⟩
    exact said.of_subset (List.subset_append_left before _)
  · refine inTurn_ite (fun _ => trivial) fun _ => ⟨⟨added _, site, member, ?_, ?_⟩, trivial⟩
    · rw [named]
      exact List.mem_cons_self
    · rcases libraries_owners plan with ⟨owners, linked, libraries⟩
      refine ⟨owners, by rw [if_pos named, ← files, libraries], fun owner inside => ?_⟩
      refine grounded.hasBundle _ (List.subset_append_left before _) (fun owns => ?_) owner
        (linked owner inside)
      simp [owns]

theorem refersBack_customUnit {file : File} (source : file ∈ site.sources)
    (custom : file.hasCustomOptions = true) (stated : plan.saysOptions = true)
    {after : List Directive} (kept : before ++ plan.directives ⊆ after) :
    InTurn (RefersBack context root written) after (customUnit setting plan file).directives := by
  have nodeThere : ∀ more, plan.node.name ∈ known (after ++ more) := fun more =>
    mem_known.mpr (.inr ⟨plan.kind, List.mem_append_left more (kept (by simp [Plan.directives]))⟩)
  have nodeOptions : ∀ more, SaysOptions (after ++ more) plan.node.name := fun more =>
    (saysOptions_plan stated).of_subset fun statement inside =>
      List.mem_append_left more (kept (List.mem_append_right before inside))
  have bundles : ∀ more, ∀ owner ∈ plan.bundleOwner?, HasBundle written (after ++ more) owner := by
    intro more
    refine grounded.hasBundle _ (fun statement inside => ?_) fun owns => ?_
    · exact List.mem_append_left more (kept (List.mem_append_left _ inside))
    · exact List.mem_append_left more (kept (by simp [Plan.directives, owns]))
  have unitThere : ∀ more, unitName plan.node.name file.path ∈ known (after ++
      (.blank :: .comment ("file " ++ file.path) ::
        .addLibrary (unitName plan.node.name file.path)
          (.object [Path.anchor setting.root file.path]) :: more)) :=
    fun more => mem_known.mpr (.inr ⟨.object [Path.anchor setting.root file.path], by simp⟩)
  unfold customUnit
  -- In order: the unit with its includes, its definitions, its options, what it links.
  refine inTurn_append.mpr ⟨inTurn_append.mpr ⟨inTurn_append.mpr ⟨?_, ?_⟩, ?_⟩, ?_⟩
  · refine ⟨trivial, trivial, trivial, ⟨?_, fun outer lazily => ?_⟩, trivial⟩
    · simpa using unitThere []
    · rw [eq_of_inherited (Option.some.inj lazily)]
      simpa using nodeThere _
  · refine inTurn_ite (fun _ => trivial) fun _ => ⟨⟨unitThere _, fun outer lazily => ?_⟩, trivial⟩
    rw [eq_of_inherited (Option.some.inj lazily)]
    exact nodeThere _
  · refine ⟨⟨?_, fun outer same => ?_⟩, trivial⟩
    · simpa using unitThere _
    · cases same
      exact ⟨nodeThere _, .inr (nodeOptions _)⟩
  · refine inTurn_ite (fun _ => trivial) fun _ => ?_
    rw [bundle?_eq]
    cases linked : plan.bundleOwner? with
    | none => trivial
    | some owner =>
        refine ⟨⟨by simpa using unitThere _, site, member, ?_, [owner], ?_, ?_⟩, trivial⟩
        · rw [Site.targets_eq, named]
          refine List.mem_cons_of_mem _ (List.mem_map.mpr ⟨file, ?_, rfl⟩)
          exact List.mem_filter.mpr ⟨source, custom⟩
        · rw [named, if_neg (unitName_ne site.target file.path)]
          rfl
        · intro other inside
          cases List.mem_singleton.mp inside
          exact bundles _ owner linked

end Plan

section Lists

variable (setting) {written : Prop}
  (writes : context.abstractions.isEmptyForAll context.languages = false → written)
include writes

theorem refersBack_site (member : site ∈ context.sites) (enclosed : Enclosed [] earlier site)
    (recognised : ∀ file ∈ site.options.files, file.isSource = true → file.role = .source) :
    InTurn (RefersBack context setting.root written)
      (earlier.flatMap (Site.directives setting context))
      (site.directives setting context) := by
  have grounded := grounded_site setting enclosed writes
  rw [Site.directives_eq]
  refine inTurn_append.mpr ⟨inTurn_append.mpr ⟨refersBack_plan grounded member rfl rfl, ?_⟩,
    trivial, trivial⟩
  refine inTurn_flatMap fun earlierFiles file laterFiles parts => ?_
  have source : file ∈ site.sources := by simp [parts]
  have compiled := Site.mem_sources.mp source
  have role := recognised file compiled.1 compiled.2.1
  unfold buildFile
  rw [Emission.directives_append, inTurn_append]
  refine ⟨?_, inTurn_ite (fun _ => trivial) fun _ => ⟨trivial, trivial⟩⟩
  split
  case isTrue custom =>
    exact refersBack_customUnit grounded member rfl source custom
      (saysOptions_of_custom source role custom) (List.subset_append_left _ _)
  case isFalse => trivial

theorem refersBack_list {sites : List Site} (within : ∀ site ∈ sites, site ∈ context.sites)
    (enclosed : InTurn (Enclosed []) [] sites)
    (recognised : ∀ file ∈ context.files, file.isSource = true → file.role = .source) :
    InTurn (RefersBack context setting.root written) []
      (sites.flatMap (Site.directives setting context)) := by
  refine inTurn_flatMap fun earlier site later parts => ?_
  have member : site ∈ context.sites := within site (by simp [parts])
  rw [List.nil_append]
  refine refersBack_site setting writes member (enclosed.split parts) fun file inside => ?_
  exact recognised file (files_sites member file inside)

end Lists

end Target

open Target

/-- Where something is set for the languages that the walk foresees, the lists of a context hold
its bundle. -/
theorem writesBundle (context : Context) (root : String) (toolchain : SelectedToolchain)
    (recognised : ∀ file ∈ context.files ++ context.constructedFiles,
      file.isSource = true → file.role = .source)
    (set : context.abstractions.isEmptyForAll context.languages = false) :
    let plan := ContextPlan.make context root toolchain
    plan.WritesBundle context.abstractions plan.languages := by
  intro plan
  rcases Abstractions.isEmptyForAll_eq_false.mp set with ⟨language, counted, matters⟩
  refine written_bundle root toolchain
    (Abstractions.isEmptyForAll_eq_false.mpr ⟨language, ?_, matters⟩)
  rw [ContextPlan.languages]
  exact languages_build recognised ▸ counted

/-- Every unit is linked once, that of a node after those of its sources and of the groups
below it, and each statement refers to what is there before it. -/
theorem references_resolve (context : Context) (root : String) (toolchain : SelectedToolchain)
    (recognised : ∀ file ∈ context.files ++ context.constructedFiles,
      file.isSource = true → file.role = .source) :
    let plan := ContextPlan.make context root toolchain
    let linked := plan.tree.session.linkUnits
    linked.Perm (plan.tree.directives.filterMap Directive.definedTarget?) ∧
    (∀ site ∈ context.sites, ∃ below, below.Perm (site.below.flatMap Site.targets) ∧
      site.unitNames ++ below ++ [site.target] <:+: linked) ∧
    ∀ list ∈ [plan.tree.groups, plan.tree.components],
      ∀ before statement after, list = before ++ statement :: after →
        RefersBack context root (plan.WritesBundle context.abstractions plan.languages) before
          statement := by
  intro plan linked
  let setting : Setting := { root, toolchain := toolchain.name }
  refine ⟨linkUnits_perm setting context, fun site member => ?_, ?_⟩
  · exact ⟨_, unitsBelow_perm setting context site, segment_linkUnits setting context member⟩
  · let written := plan.WritesBundle context.abstractions plan.languages
    have writes : context.abstractions.isEmptyForAll context.languages = false → written :=
      writesBundle context root toolchain recognised
    have inContext : ∀ file ∈ context.files, file.isSource = true → file.role = .source :=
      fun file inside => recognised file (List.mem_append_left _ inside)
    have turns : ∀ sites : List Site, (∀ site ∈ sites, site ∈ context.sites) →
        InTurn (Enclosed []) [] sites →
        InTurn (RefersBack context root written) []
          (sites.flatMap (Site.directives setting context)) :=
      fun _ within enclosed => refersBack_list setting writes within enclosed inContext
    have groups : plan.tree.groups = _ := groups_build setting context
    have components : plan.tree.components = _ := components_build setting context
    intro list isList before statement after parts
    simp only [List.mem_cons, List.not_mem_nil, or_false] at isList
    rcases isList with rfl | rfl
    · rw [groups] at parts
      exact (turns context.groupSites (fun _ => List.mem_append_left _)
        (enclosed_groupSites context)).split parts
    · rw [components] at parts
      exact (turns context.componentSites (fun _ => List.mem_append_right _)
        (enclosed_componentSites context)).split parts

/-- Something is set for the context and for a group below another one, which has a source
with a unit of its own. -/
private def referringGroups : Context where
  abstractions := { debug := "on" }
  groups :=
    [{ name := "Outer"
       options :=
         { files :=
             [{ path := "./unit.cpp", category := "sourceCpp", define := [{ name := "UNIT" }] }] }
       groups :=
         [{ name := "Inner"
            options :=
              { abstractions := { optimize := "speed" }
                files := [{ path := "./inner.c", category := "sourceC" }] } }] }]
  components :=
    [{ identifier := "Library"
       options := { files := [{ path := "./library.c", category := "source" }] } }]

private def referringToolchain : SelectedToolchain where
  name := "GCC"
  version := { major := 13, minor := 2, patch := 0 }
  root := "/opt/gcc/bin"
  config := "GCC.13.2.0.cmake"

theorem references_resolve_nested :
    let plan := ContextPlan.make referringGroups "project" referringToolchain
    (∀ file ∈ referringGroups.files ++ referringGroups.constructedFiles,
      file.isSource = true → file.role = .source) ∧
    plan.tree.session.linkUnits =
      ["Group_Outer___unit_cpp", "Group_Outer_Inner", "Group_Outer", "Library"] ∧
    plan.tree.session.linkUnits.Perm (plan.tree.directives.filterMap Directive.definedTarget?) ∧
    ∀ before statement after, plan.tree.groups = before ++ statement :: after →
      RefersBack referringGroups "project"
        (plan.WritesBundle referringGroups.abstractions plan.languages) before statement := by
  intro plan
  have recognised : ∀ file ∈ referringGroups.files ++ referringGroups.constructedFiles,
      file.isSource = true → file.role = .source := by decide +kernel
  rcases references_resolve referringGroups "project" referringToolchain recognised with
    ⟨linked, _, resolve⟩
  exact ⟨recognised, by decide +kernel, linked, resolve _ List.mem_cons_self⟩

end SolutionLists
