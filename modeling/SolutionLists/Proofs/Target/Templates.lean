import SolutionLists.Proofs.Target.Heard

namespace SolutionLists

/-! Template files stand in a description for the user to copy. Without them a context is
built as it was, unless a template alone makes the walk believe that sources of its node have
abstractions of their own: then the sources around it are served otherwise. -/

open Target

/-! ## Statements without what they say about abstractions -/

/-- Whether a library is named like those that carry abstractions. -/
def isBundle (library : String) : Bool :=
  Text.endsWith library "_ABSTRACTIONS"

theorem isBundle_bundleOf (owner : String) : isBundle (bundleOf owner) = true := by
  simp [isBundle, bundleOf, Text.endsWith]

/-- A statement less what it says about abstractions; none where nothing is left. -/
def Directive.apart : Directive → Option Directive
  | abstractionsBundle .. => none
  | linkLibraries target scope libraries =>
      let others := libraries.filter (!isBundle ·)
      if others = [] then none else some (linkLibraries target scope others)
  | sourceFileProperties properties =>
      let others := { properties with abstractions := none }
      if others.isEmpty then none else some (sourceFileProperties others)
  | directive => some directive

namespace Target

/-- What is settled about a node that no bundle serves. -/
def Plan.unserved (plan : Plan) : Plan :=
  { plan with parent := plan.parent.apart, fileAbstractions := true }

theorem ownsBundle_unserved (plan : Plan) : plan.unserved.ownsBundle = false :=
  rfl

theorem bundle_unserved (plan : Plan) : plan.unserved.bundle? = none :=
  rfl

theorem isBundle_of_bundle {plan : Plan} {bundle : String} (serves : plan.bundle? = some bundle) :
    isBundle bundle = true := by
  unfold Plan.bundle? at serves
  split at serves
  case isTrue => cases serves
  case isFalse =>
    rcases Option.map_eq_some_iff.mp serves with ⟨⟨owner, _⟩, _, rfl⟩
    exact isBundle_bundleOf owner

theorem apart_links (target : String) (scope : Scope) (libraries : List String) :
    (if libraries = [] then [] else [Directive.linkLibraries target scope libraries]).filterMap
        Directive.apart =
      if libraries.filter (!isBundle ·) = [] then []
      else [Directive.linkLibraries target scope (libraries.filter (!isBundle ·))] := by
  by_cases nothing : libraries = []
  · simp [nothing]
  · rw [if_neg nothing]
    by_cases others : libraries.filter (!isBundle ·) = []
    · simp [Directive.apart, others]
    · simp [Directive.apart, others]

theorem libraries_apart (plan : Plan) :
    plan.libraries.filter (!isBundle ·) = plan.unserved.libraries.filter (!isBundle ·) := by
  have none : plan.bundle?.toList.filter (!isBundle ·) = [] := by
    apply List.filter_eq_nil_iff.mpr
    intro bundle serves
    simp [isBundle_of_bundle (Option.mem_toList.mp serves)]
  unfold Plan.libraries
  dsimp only
  have left : (if (!plan.files.interface && !plan.abstractions.isEmptyForAll plan.files.languages) =
      true then plan.bundle?.toList else []).filter (!isBundle ·) = [] := by
    split
    · exact none
    · rfl
  rw [bundle_unserved, List.append_assoc, List.append_assoc, List.filter_append, left,
    Option.toList_none, ite_self]
  rfl

theorem directives_apart (plan : Plan) :
    plan.directives.filterMap Directive.apart =
      plan.unserved.directives.filterMap Directive.apart := by
  have bundle : (if plan.ownsBundle then
      [Directive.abstractionsBundle plan.node.name plan.abstractions plan.subtree]
      else []).filterMap Directive.apart = [] := by
    split <;> rfl
  unfold Plan.directives
  simp only [List.filterMap_append, apart_links, libraries_apart plan, bundle, ownsBundle_unserved]
  rfl

theorem links_apart {plan : Plan} (unit : String) :
    (plan.bundle?.toList.map fun bundle =>
      Directive.linkLibraries unit .shared [bundle]).filterMap Directive.apart = [] := by
  apply List.filterMap_eq_nil_iff.mpr
  intro directive said
  rcases List.mem_map.mp said with ⟨bundle, serves, rfl⟩
  simp [Directive.apart, isBundle_of_bundle (Option.mem_toList.mp serves)]

variable (setting : Setting)

theorem customUnit_apart (plan : Plan) (file : File) :
    (customUnit setting plan file).directives.filterMap Directive.apart =
      (customUnit setting plan.unserved file).directives.filterMap Directive.apart := by
  have links : (if plan.abstractions.isEmptyFor file.language then []
      else plan.bundle?.toList.map fun bundle =>
        Directive.linkLibraries (unitName plan.node.name file.path) .shared [bundle]).filterMap
          Directive.apart = [] := by
    split
    · rfl
    · exact links_apart _
  unfold customUnit
  dsimp only
  rw [List.filterMap_append, links, bundle_unserved, Option.toList_none, List.map_nil, ite_self,
    List.append_nil, List.append_nil]
  rfl

theorem properties_apart (properties : FileProperties) :
    (if properties.isEmpty then [] else [Directive.sourceFileProperties properties]).filterMap
        Directive.apart =
      if FileProperties.isEmpty { properties with abstractions := none } then []
      else [Directive.sourceFileProperties { properties with abstractions := none }] := by
  by_cases nothing : properties.isEmpty = true
  · have others : FileProperties.isEmpty { properties with abstractions := none } = true := by
      simp only [FileProperties.isEmpty, Bool.and_eq_true] at nothing ⊢
      exact ⟨nothing.1, rfl⟩
    rw [if_pos nothing, if_pos others]
    rfl
  · rw [if_neg nothing]
    by_cases others : FileProperties.isEmpty { properties with abstractions := none } = true
    · simp [Directive.apart, others]
    · simp [Directive.apart, others]

theorem fileProperties_apart (plan : Plan) (file : File) :
    { fileProperties setting plan file with abstractions := none } =
      { fileProperties setting plan.unserved file with abstractions := none } := by
  have bare : ∀ (properties : FileProperties) (own : Bool) (abstractions : Abstractions),
      ({ (if own then { properties with abstractions := some abstractions } else properties) with
        abstractions := none } : FileProperties) = { properties with abstractions := none } := by
    intro properties own abstractions
    cases own <;> rfl
  unfold fileProperties
  dsimp only
  rw [bare, bare]
  rfl

theorem buildFile_apart (plan : Plan) (file : File) :
    (buildFile setting plan file).directives.filterMap Directive.apart =
      (buildFile setting plan.unserved file).directives.filterMap Directive.apart := by
  have unit := customUnit_apart setting plan file
  have properties := fileProperties_apart setting plan file
  unfold buildFile
  simp only [Emission.directives_append, List.filterMap_append, properties_apart, properties]
  split
  · rw [unit]
  · rfl

/-! ## The walk without templates -/

theorem isEmpty_trimAll_templates (groups : List Group) :
    (Group.trimAll .templates groups).isEmpty = groups.isEmpty := by
  cases groups <;> rfl

variable (context : Context)

theorem plan_templates (site : Site) :
    ((site.trim .templates).plan setting (context.trim .templates)).unserved =
      { (site.plan setting context).unserved with node := site.node.trim .templates } := by
  have parent : (inheritedWithin setting (context.trim .templates)
      (site.around.map (Branch.trim .templates))).apart =
        (site.plan setting context).parent.apart :=
    apart_inheritedWithin_trim .templates context setting site.around
  rw [plan_trim]
  unfold Plan.unserved
  dsimp only
  rw [parent, isEmpty_trimAll_templates]
  rfl

theorem site_apart (site : Site) :
    (site.directives setting context).filterMap Directive.apart =
      ((site.plan setting context).unserved.directives ++
        site.sources.flatMap (fun file =>
          (buildFile setting (site.plan setting context).unserved file).directives) ++
        [Directive.blank]).filterMap Directive.apart := by
  rw [Site.directives_eq]
  simp only [List.filterMap_append, List.filterMap_flatMap, ← directives_apart,
    buildFile_apart setting (site.plan setting context)]

theorem site_templates (site : Site) :
    ((site.trim .templates).directives setting (context.trim .templates)).filterMap
        Directive.apart =
      (site.directives setting context).filterMap Directive.apart := by
  rw [site_apart, site_apart, plan_templates, sources_trim]
  rfl

theorem sites_templates (sites : List Site) :
    ((sites.map (Site.trim .templates)).flatMap
        (Site.directives setting (context.trim .templates))).filterMap Directive.apart =
      (sites.flatMap (Site.directives setting context)).filterMap Directive.apart := by
  rw [List.flatMap_map, List.filterMap_flatMap, List.filterMap_flatMap]
  apply List.flatMap_congr
  intro site _
  exact site_templates setting context site

theorem session_templates :
    (Tree.build setting (context.trim .templates)).session =
      (Tree.build setting context).session := by
  have attentive : Trim.templates.Unheard fun _ => true := by
    intro group left
    cases left
  have same := congrArg Emission.findings (heard_walk_trim context setting attentive)
  unfold Emission.heard at same
  dsimp only at same
  rw [List.filter_true, List.filter_true] at same
  rw [session_build, session_build, same]

theorem Tree.eq_of_parts {first second : Tree} (groups : first.groups = second.groups)
    (components : first.components = second.components)
    (session : first.session = second.session) (warnings : first.warnings = second.warnings) :
    first = second := by
  cases first
  cases second
  cases groups
  cases components
  cases session
  cases warnings
  rfl

variable {context}

theorem spares_around (spared : ∀ site ∈ context.sites, Trim.templates.Spares site.node)
    {site : Site} (member : site ∈ context.sites) :
    ∀ branch ∈ site.branch :: site.around, Trim.templates.Spares branch.node := by
  rcases site with ⟨branch, around⟩
  induction around generalizing branch with
  | nil =>
      intro other listed
      rw [List.mem_singleton.mp listed]
      exact spared _ member
  | cons outer rest induction =>
      intro other listed
      rcases List.mem_cons.mp listed with rfl | further
      · exact spared _ member
      · exact induction outer (Context.mem_sites_of_around member rfl) other further

theorem directives_templates (spared : ∀ site ∈ context.sites, Trim.templates.Spares site.node)
    {site : Site} (member : site ∈ context.sites) :
    (site.trim .templates).directives setting (context.trim .templates) =
      site.directives setting context := by
  rw [directives_trim .templates context setting (spares_around spared member),
    isEmpty_trimAll_templates, Site.directives_eq]
  rfl

theorem build_templates (spared : ∀ site ∈ context.sites, Trim.templates.Spares site.node) :
    Tree.build setting (context.trim .templates) = Tree.build setting context := by
  have same : ∀ sites : List Site, (∀ site ∈ sites, site ∈ context.sites) →
      (sites.map (Site.trim .templates)).flatMap
          (Site.directives setting (context.trim .templates)) =
        sites.flatMap (Site.directives setting context) := by
    intro sites listed
    rw [List.flatMap_map]
    apply List.flatMap_congr
    intro site member
    exact directives_templates setting spared (listed site member)
  have groups : (Tree.build setting (context.trim .templates)).groups =
      (Tree.build setting context).groups := by
    rw [groups_build, groups_build, groupSites_trim]
    exact same _ fun site member => List.mem_append_left _ member
  have components : (Tree.build setting (context.trim .templates)).components =
      (Tree.build setting context).components := by
    rw [components_build, components_build, componentSites_trim]
    exact same _ fun site member => List.mem_append_right _ member
  exact Tree.eq_of_parts groups components (session_templates setting context)
    (warnings_trim .templates context setting)

end Target

/-- Without its templates a context finds out the same and is described by the same statements
but for what they say about abstractions. Where no template decides alone whether sources of
its node have abstractions of their own, nothing changes at all. -/
theorem templates_inert_but_for_abstractions (setting : Setting) (context : Context) :
    let bare := context.trim .templates
    let tree := Tree.build setting context
    let other := Tree.build setting bare
    other.session = tree.session ∧ other.warnings = tree.warnings ∧
      bare.interfaceIncludes setting.root = context.interfaceIncludes setting.root ∧
      other.groups.filterMap Directive.apart = tree.groups.filterMap Directive.apart ∧
      other.components.filterMap Directive.apart = tree.components.filterMap Directive.apart ∧
      ((∀ site ∈ context.sites, Trim.templates.Spares site.node) → other = tree) := by
  intro bare tree other
  refine ⟨session_templates setting context, warnings_trim .templates context setting,
    Context.interfaceIncludes_trim .templates context setting.root, ?_, ?_,
    build_templates setting⟩
  · rw [groups_build, groups_build, groupSites_trim]
    exact sites_templates setting context context.groupSites
  · rw [components_build, components_build, componentSites_trim]
    exact sites_templates setting context context.componentSites

/-- A group with abstractions, a source, and templates, of which one source may have
abstractions of its own. -/
private def templatedSources (own : Abstractions) : Context where
  groups :=
    [{ name := "App"
       options :=
         { abstractions := { optimize := "size" }
           files :=
             [{ path := "./main.c", category := "sourceC" },
               { path := "./handlers.c", category := "sourceC", attr := "template",
                 abstractions := own },
               { path := "./inc/config.h", category := "header", attr := "template" }] } }]

private def templatedSetting : Setting where
  root := "project"
  toolchain := "GCC"

theorem templates_inert_but_for_abstractions_plain :
    let context := templatedSources {}
    (Group.allFiles (context.trim .templates).groups).map (·.path) = ["./main.c"] ∧
      Tree.build templatedSetting (context.trim .templates) =
        Tree.build templatedSetting context := by
  intro context
  have spared : ∀ site ∈ context.sites,
      hasFileAbstractions (Trim.templates.files site.options.files) =
        hasFileAbstractions site.options.files := by decide +kernel
  rcases templates_inert_but_for_abstractions templatedSetting context with ⟨_, _, _, _, _, same⟩
  exact ⟨by decide +kernel, same spared⟩

/-- A template source with abstractions of its own takes the bundle away from the others. -/
theorem template_takes_bundle :
    ¬ ∀ (setting : Setting) (context : Context),
      (Tree.build setting (context.trim .templates)).directives =
        (Tree.build setting context).directives := by
  intro inert
  let context := templatedSources { optimize := "speed" }
  let bundle : Directive := .abstractionsBundle "Group_App" { optimize := "size" } [.c]
  have without : bundle ∈ (Tree.build templatedSetting (context.trim .templates)).directives := by
    decide +kernel
  have among : bundle ∉ (Tree.build templatedSetting context).directives := by decide +kernel
  rw [inert] at without
  exact among without

end SolutionLists
