import SolutionLists.Proofs.Target.Inheritance

namespace SolutionLists

/-! A node that deletes directories or undefines names which do not reach it. The walk
then writes the parent's set out where it referred to it before, and yet hands on the
same. -/

open Target

/-! ## A description in which one node takes more away -/

mutual

/-- The group in which the node of one target takes more away. `name` is the target of
the group itself. -/
def Group.removeAt (more : Removal) (target name : String) : Group → Group
  | ⟨title, options, groups⟩ =>
      ⟨title, if name = target then options.remove more else options,
        Group.allRemoveAt more target (name ++ "_") groups⟩

def Group.allRemoveAt (more : Removal) (target start : String) : List Group → List Group
  | [] => []
  | group :: rest =>
      group.removeAt more target (start ++ nameOf group.name) ::
        Group.allRemoveAt more target start rest

end

def Component.removeAt (more : Removal) (target : String) (component : Component) : Component :=
  { component with
    options :=
      if nameOf component.identifier = target then component.options.remove more
      else component.options }

def Context.removeAt (more : Removal) (target : String) (context : Context) : Context :=
  { context with
    groups := Group.allRemoveAt more target "Group_" context.groups
    components := context.components.map (Component.removeAt more target) }

variable (more : Removal) (target : String)

theorem NodeOptions.files_removeAt (name : String) (options : NodeOptions) :
    (if name = target then options.remove more else options).files = options.files := by
  split <;> rfl

mutual

theorem Group.isBuildable_removeAt (name : String) : (group : Group) →
    (group.removeAt more target name).isBuildable = group.isBuildable
  | ⟨title, options, groups⟩ => by
      rw [Group.removeAt, Group.isBuildable, Group.isBuildable, NodeOptions.files_removeAt,
        Group.anyBuildable_removeAt (name ++ "_") groups]

theorem Group.anyBuildable_removeAt (start : String) : (groups : List Group) →
    Group.anyBuildable (Group.allRemoveAt more target start groups) = Group.anyBuildable groups
  | [] => rfl
  | group :: rest => by
      rw [Group.allRemoveAt, Group.anyBuildable, Group.anyBuildable,
        Group.isBuildable_removeAt _ group, Group.anyBuildable_removeAt start rest]

end

mutual

theorem Group.addLanguages_removeAt (languages : List Language) (name : String) :
    (group : Group) →
    (group.removeAt more target name).addLanguages languages = group.addLanguages languages
  | ⟨title, options, groups⟩ => by
      rw [Group.removeAt, Group.addLanguages, Group.addLanguages, NodeOptions.files_removeAt,
        Group.addAllLanguages_removeAt _ (name ++ "_") groups]

theorem Group.addAllLanguages_removeAt (languages : List Language) (start : String) :
    (groups : List Group) →
    Group.addAllLanguages languages (Group.allRemoveAt more target start groups) =
      Group.addAllLanguages languages groups
  | [] => rfl
  | group :: rest => by
      rw [Group.allRemoveAt, Group.addAllLanguages, Group.addAllLanguages,
        Group.addLanguages_removeAt languages _ group,
        Group.addAllLanguages_removeAt _ start rest]

end

mutual

theorem Group.collectIncludes_removeAt (root name : String) : (group : Group) →
    (group.removeAt more target name).collectIncludes root = group.collectIncludes root
  | ⟨title, options, groups⟩ => by
      rw [Group.removeAt, Group.collectIncludes, Group.collectIncludes,
        NodeOptions.files_removeAt, Group.anyBuildable_removeAt,
        Group.collectAllIncludes_removeAt root (name ++ "_") groups]

theorem Group.collectAllIncludes_removeAt (root start : String) : (groups : List Group) →
    Group.collectAllIncludes root (Group.allRemoveAt more target start groups) =
      Group.collectAllIncludes root groups
  | [] => rfl
  | group :: rest => by
      rw [Group.allRemoveAt, Group.collectAllIncludes, Group.collectAllIncludes,
        Group.collectIncludes_removeAt root _ group,
        Group.collectAllIncludes_removeAt root start rest]

end

theorem Component.files_removeAt (component : Component) :
    (component.removeAt more target).options.files = component.options.files :=
  NodeOptions.files_removeAt more target _ component.options

theorem Context.languages_removeAt (context : Context) :
    (context.removeAt more target).languages = context.languages := by
  unfold Context.languages Context.removeAt
  simp only [Group.addAllLanguages_removeAt, List.foldl_map, Component.files_removeAt]

theorem Context.interfaceIncludes_removeAt (context : Context) (root : String) :
    (context.removeAt more target).interfaceIncludes root = context.interfaceIncludes root := by
  unfold Context.interfaceIncludes Context.removeAt
  simp only [Group.collectAllIncludes_removeAt, List.filter_map, List.map_map,
    Function.comp_def, Component.files_removeAt]
  rfl

namespace Target

theorem inheritedFrom_removeAt (setting : Setting) (context : Context) :
    inheritedFrom setting (context.removeAt more target) = inheritedFrom setting context := by
  unfold inheritedFrom
  rw [Context.interfaceIncludes_removeAt, Context.languages_removeAt]
  rfl

/-! ## The same sites -/

def Branch.removeAt (branch : Branch) : Branch where
  node := if branch.node.name = target then branch.node.remove more else branch.node
  groups := Group.allRemoveAt more target (branch.node.name ++ "_") branch.groups

def Site.removeAt (site : Site) : Site where
  branch := site.branch.removeAt more target
  around := site.around.map (Branch.removeAt more target)

@[simp] theorem Branch.name_removeAt (branch : Branch) :
    (branch.removeAt more target).node.name = branch.node.name := by
  unfold Branch.removeAt
  dsimp only
  split <;> rfl

theorem Branch.removeAt_ofGroup (name title : String) (options : NodeOptions)
    (groups : List Group) :
    Branch.removeAt more target ⟨Node.ofGroup name ⟨title, options, groups⟩, groups⟩ =
      ⟨Node.ofGroup name ((⟨title, options, groups⟩ : Group).removeAt more target name),
        Group.allRemoveAt more target (name ++ "_") groups⟩ := by
  rw [Group.removeAt, Branch.removeAt]
  congr 1
  by_cases named : name = target
  · subst named
    simp [Node.ofGroup, Node.remove]
  · simp [Node.ofGroup, named]

mutual

theorem sitesOfGroup_removeAt (around : List Branch) (name : String) : (group : Group) →
    sitesOfGroup (around.map (Branch.removeAt more target)) name
        (group.removeAt more target name) =
      (sitesOfGroup around name group).map (Site.removeAt more target)
  | ⟨title, options, groups⟩ => by
      have here := Branch.removeAt_ofGroup more target name title options groups
      rw [Group.removeAt] at here ⊢
      rw [sitesOfGroup, sitesOfGroup, NodeOptions.files_removeAt, Group.anyBuildable_removeAt]
      split
      · have below := sitesOfGroups_removeAt
          (⟨Node.ofGroup name ⟨title, options, groups⟩, groups⟩ :: around) (name ++ "_") groups
        rw [List.map_cons, here] at below
        simp only [List.map_cons, below, Site.removeAt, here]
      · rfl

theorem sitesOfGroups_removeAt (around : List Branch) (start : String) :
    (groups : List Group) →
    sitesOfGroups (around.map (Branch.removeAt more target)) start
        (Group.allRemoveAt more target start groups) =
      (sitesOfGroups around start groups).map (Site.removeAt more target)
  | [] => by rw [Group.allRemoveAt, sitesOfGroups, sitesOfGroups, List.map_nil]
  | group :: rest => by
      have name : (group.removeAt more target (start ++ nameOf group.name)).name = group.name := by
        cases group
        rw [Group.removeAt]
      rw [Group.allRemoveAt, sitesOfGroups, sitesOfGroups, List.map_append, name,
        sitesOfGroup_removeAt around _ group, sitesOfGroups_removeAt around start rest]

end

theorem removeAt_ofComponent (component : Component) :
    (⟨⟨Node.ofComponent (component.removeAt more target), []⟩, []⟩ : Site) =
      Site.removeAt more target ⟨⟨Node.ofComponent component, []⟩, []⟩ := by
  unfold Site.removeAt Branch.removeAt Component.removeAt Node.ofComponent
  by_cases named : nameOf component.identifier = target
  · simp [named, Node.remove, Group.allRemoveAt]
  · simp [named, Group.allRemoveAt]

theorem sites_removeAt (context : Context) :
    (context.removeAt more target).sites =
      context.sites.map (Site.removeAt more target) := by
  have groups := sitesOfGroups_removeAt more target [] "Group_" context.groups
  have components : (context.removeAt more target).componentSites =
      context.componentSites.map (Site.removeAt more target) := by
    unfold Context.componentSites Context.removeAt
    simp only [List.filter_map, List.map_map, Function.comp_def, Component.files_removeAt,
      removeAt_ofComponent]
  rw [Context.sites, Context.sites, List.map_append, components]
  exact congrArg (· ++ _) groups

@[simp] theorem Site.target_removeAt (site : Site) :
    (site.removeAt more target).target = site.target :=
  Branch.name_removeAt more target site.branch

theorem Site.targets_removeAt (site : Site) :
    (site.removeAt more target).targets = site.targets := by
  have files : (site.removeAt more target).options.files = site.options.files := by
    unfold Site.options Site.node Site.removeAt Branch.removeAt
    dsimp only
    split <;> rfl
  have compiling : (site.removeAt more target).compiling = site.compiling := by
    funext file
    unfold Site.compiling
    rw [Site.target_removeAt]
  unfold Site.targets Site.sources
  rw [files, compiling, Site.target_removeAt]

theorem targets_removeAt (setting : Setting) (context : Context) :
    (Tree.build setting (context.removeAt more target)).targets =
      (Tree.build setting context).targets := by
  rw [targets_build, targets_build, sites_removeAt, List.flatMap_map]
  simp only [Site.targets_removeAt]

/-! ## The same settings -/

namespace Passing

variable {setting : Setting} {α : Type} (passing : Passing setting α)

theorem held_make (parent : Inherited) (node : Node) (groups : List Group) :
    passing.held (Plan.make setting parent node groups).inherited =
      (passing.held parent \ passing.removed node.options.removal) ∪
        (passing.flow (Plan.make setting parent node groups)).own := by
  rw [passing.held_inherited, passing.flow_parent]
  by_cases spared : passing.spares node.options.removal
  · rw [if_pos spared, passing.removed_spares _ spared]
    ext item
    simp [ParentPart.value]
  · rw [if_neg spared]
    rfl

variable {more target} {context : Context}

theorem held_remove {parent other : Inherited} (same : passing.held other = passing.held parent)
    (node : Node) (groups others : List Group)
    (unused : ∀ item ∈ passing.held parent, item ∉ passing.removed more) :
    passing.held (Plan.make setting other (node.remove more) others).inherited =
      passing.held (Plan.make setting parent node groups).inherited := by
  have left : passing.held parent \ passing.removed (node.remove more).options.removal =
      passing.held parent \ passing.removed node.options.removal := by
    have both : passing.removed (node.remove more).options.removal =
        passing.removed node.options.removal ∪ passing.removed more :=
      passing.removed_append node.options.removal more
    rw [both]
    ext item
    constructor
    · rintro ⟨present, kept⟩
      exact ⟨present, fun removed => kept (.inl removed)⟩
    · rintro ⟨present, kept⟩
      refine ⟨present, ?_⟩
      rintro (removed | removed)
      · exact kept removed
      · exact unused item present removed
  rw [held_make, held_make, passing.own_remove, passing.own_make parent, same, left]

theorem held_site {parent other : Inherited} (same : passing.held other = passing.held parent)
    (branch : Branch)
    (unused : branch.node.name = target →
      ∀ item ∈ passing.held parent, item ∉ passing.removed more) :
    passing.held (Plan.make setting other (branch.removeAt more target).node
        (branch.removeAt more target).groups).inherited =
      passing.held (Plan.make setting parent branch.node branch.groups).inherited := by
  unfold Branch.removeAt
  by_cases named : branch.node.name = target
  · simp only [if_pos named]
    exact passing.held_remove same branch.node branch.groups _ (unused named)
  · simp only [if_neg named]
    rw [held_make, held_make, passing.own_make parent, same]

/-- Where a node takes away more of what does not reach it, every node takes over the
same as before. -/
theorem held_removeAt
    (unused : ∀ site ∈ context.sites, site.target = target →
      ∀ item ∈ passing.held (inheritedWithin setting context site.around),
        item ∉ passing.removed more)
    {site : Site} (member : site ∈ context.sites) :
    passing.held (inheritedWithin setting (context.removeAt more target)
        (site.removeAt more target).around) =
      passing.held (inheritedWithin setting context site.around) := by
  rcases site with ⟨branch, around⟩
  induction around generalizing branch with
  | nil => exact congrArg passing.held (inheritedFrom_removeAt more target setting context)
  | cons outer rest induction =>
      have outerMember := Context.mem_sites_of_around member rfl
      exact passing.held_site (induction outer outerMember) outer (unused _ outerMember)

variable (distinct : (Tree.build setting context).targets.Nodup)
include distinct

/-- Where a node takes away more of what does not reach it, no target hands on anything
else than before. -/
theorem reaching_removeAt
    (unused : ∀ site ∈ context.sites, site.target = target →
      ∀ item ∈ passing.reaching context site.parent, item ∉ passing.removed more)
    {site : Site} (member : site ∈ context.sites) :
    passing.reaching (context.removeAt more target) site.target =
      passing.reaching context site.target := by
  have changedDistinct :
      (Tree.build setting (context.removeAt more target)).targets.Nodup := by
    rw [targets_removeAt]
    exact distinct
  have changedMember :
      site.removeAt more target ∈ (context.removeAt more target).sites := by
    rw [sites_removeAt]
    exact List.mem_map_of_mem member
  have carried : ∀ site ∈ context.sites, site.target = target →
      ∀ item ∈ passing.held (inheritedWithin setting context site.around),
        item ∉ passing.removed more := by
    intro other otherMember named
    rw [← passing.reaching_parent distinct otherMember]
    exact unused other otherMember named
  have after := passing.reaching_target changedDistinct changedMember
  rw [Site.target_removeAt] at after
  rw [after, passing.reaching_target distinct member]
  exact passing.held_site (passing.held_removeAt carried member) site.branch
    (carried site member)

end Passing

end Target

/-- What is written out for a node that takes something away is what its parent hands on
less that, and a node that takes away what does not reach it changes nothing. -/
theorem removal_writes_out_references (context : Context) (root : String)
    (toolchain : SelectedToolchain)
    (distinct : (ContextPlan.make context root toolchain).tree.targets.Nodup) :
    let plan := ContextPlan.make context root toolchain
    (plan.handedOnIncludes Target.context = plan.includes.pairs ∧
      plan.handedOnDefines Target.context = {define | define ∈ context.define}) ∧
    (∀ site ∈ context.sites,
      (∃ flow, plan.includeFlows.filter (fun flow => flow.target = site.target) = [flow] ∧
        flow.parent =
          if site.options.delPath.isEmpty then .inherited site.parent
          else .resolved (plan.handedOnIncludes site.parent \
            {pair | pair.2 ∈ Path.anchorAll root site.options.delPath})) ∧
      ∃ flow, plan.defineFlows.filter (fun flow => flow.target = site.target) = [flow] ∧
        flow.parent =
          if site.options.undefine.isEmpty then .inherited site.parent
          else .resolved (plan.handedOnDefines site.parent \
            {define | define.name ∈ site.options.undefine})) ∧
    ∀ (more : Removal) (target : String),
      let changed := ContextPlan.make (context.removeAt more target) root toolchain
      ((∀ site ∈ context.sites, site.target = target →
          ∀ pair ∈ plan.handedOnIncludes site.parent,
            pair.2 ∉ Path.anchorAll root more.delete) →
        ∀ site ∈ context.sites,
          changed.handedOnIncludes site.target = plan.handedOnIncludes site.target) ∧
      ((∀ site ∈ context.sites, site.target = target →
          ∀ define ∈ plan.handedOnDefines site.parent, define.name ∉ more.undefine) →
        ∀ site ∈ context.sites,
          changed.handedOnDefines site.target = plan.handedOnDefines site.target) := by
  intro plan
  let setting : Setting := { root, toolchain := toolchain.name }
  let includes := includePassing setting
  let defines := definePassing setting
  refine ⟨⟨includes.reaching_context distinct, defines.reaching_context distinct⟩, ?_, ?_⟩
  · intro site member
    exact ⟨⟨_, includes.flows_about distinct member, includes.flow_parent_site distinct member⟩,
      _, defines.flows_about distinct member, defines.flow_parent_site distinct member⟩
  · intro more target changed
    constructor
    · intro unused site member
      exact includes.reaching_removeAt distinct unused member
    · intro unused site member
      exact defines.reaching_removeAt distinct unused member

/-- A group that defines a name and shows a directory, and one below it that takes both
away. -/
private def nestedGroups : Context where
  define := [{ name := "GLOBAL" }]
  groups :=
    [{ name := "Outer"
       options :=
         { define := [{ name := "OUTER" }]
           files :=
             [{ path := "./outer.c", category := "sourceC" },
               { path := "./inc/outer.h", category := "header" }] }
       groups :=
         [{ name := "Inner"
            options :=
              { delPath := ["./inc"]
                undefine := ["OUTER"]
                files := [{ path := "./inner.c", category := "sourceC" }] } }] }]

private def nestedToolchain : SelectedToolchain where
  name := "AC6"
  version := { major := 6, minor := 18, patch := 0 }
  root := "/opt/ac6/bin"
  config := "AC6.6.18.0.cmake"

theorem removal_writes_out_references_nested :
    let plan := ContextPlan.make nestedGroups "project" nestedToolchain
    let more : Removal := { delete := ["./unused"], undefine := ["UNUSED"] }
    let changed :=
      ContextPlan.make (nestedGroups.removeAt more "Group_Outer") "project" nestedToolchain
    plan.tree.targets.Nodup ∧
      (∃ flow, plan.includeFlows.filter (fun flow => flow.target = "Group_Outer_Inner") = [flow] ∧
        flow.parent = .resolved (plan.handedOnIncludes "Group_Outer" \
          {pair | pair.2 ∈ Path.anchorAll "project" ["./inc"]})) ∧
      changed.handedOnDefines "Group_Outer_Inner" = plan.handedOnDefines "Group_Outer_Inner" := by
  intro plan more changed
  have distinct : plan.tree.targets.Nodup := by decide +kernel
  have inner : ∃ site ∈ nestedGroups.sites, site.target = "Group_Outer_Inner" ∧
      site.parent = "Group_Outer" ∧ site.options.delPath = ["./inc"] := by decide +kernel
  have outer : ∀ site ∈ nestedGroups.sites, site.target = "Group_Outer" →
      site.parent = Target.context := by decide +kernel
  rcases removal_writes_out_references nestedGroups "project" nestedToolchain distinct with
    ⟨⟨_, atContext⟩, written, unchanged⟩
  rcases inner with ⟨site, member, target, parent, delPath⟩
  have unused : ∀ site ∈ nestedGroups.sites, site.target = "Group_Outer" →
      ∀ define ∈ plan.handedOnDefines site.parent, define.name ∉ more.undefine := by
    intro other otherMember named define reached
    rw [outer other otherMember named, atContext] at reached
    have all : ∀ define ∈ nestedGroups.define, define.name ∉ more.undefine := by decide +kernel
    exact all define reached
  refine ⟨distinct, ?_, ?_⟩
  · have statement := (written site member).1
    rw [target, parent, delPath] at statement
    exact statement
  · have same := (unchanged more "Group_Outer").2 unused site member
    rw [target] at same
    exact same

end SolutionLists
