import Mathlib.Data.List.Infix
import SolutionLists.Target.Tree

namespace SolutionLists.Target

/-! The groups and components of a context that are built, each with the groups
around it. What the walk says and finds out is what it says and finds out at these
sites, one after the other. -/

/-- A node with the groups below it. -/
structure Branch where
  node : Node
  groups : List Group

/-- A node that is built, with the groups around it, the nearest first. -/
structure Site where
  branch : Branch
  around : List Branch

namespace Site

def node (site : Site) : Node := site.branch.node

def options (site : Site) : NodeOptions := site.node.options

def target (site : Site) : String := site.node.name

/-- The target that the node takes its settings from. -/
def parent (site : Site) : String :=
  match site.around with
  | [] => Target.context
  | outer :: _ => outer.node.name

end Site

mutual

/-- The sites of a group and of the groups below it. -/
def sitesOfGroup (around : List Branch) (name : String) : Group → List Site
  | ⟨title, options, groups⟩ =>
      if hasBuildableFiles options.files || Group.anyBuildable groups then
        let branch : Branch := ⟨Node.ofGroup name ⟨title, options, groups⟩, groups⟩
        ⟨branch, around⟩ :: sitesOfGroups (branch :: around) (name ++ "_") groups
      else []

def sitesOfGroups (around : List Branch) (start : String) : List Group → List Site
  | [] => []
  | group :: rest =>
      sitesOfGroup around (start ++ nameOf group.name) group ++ sitesOfGroups around start rest

end

end Target

namespace Context

open Target

def groupSites (context : Context) : List Site :=
  sitesOfGroups [] "Group_" context.groups

def componentSites (context : Context) : List Site :=
  (context.components.filter (hasBuildableFiles ·.options.files)).map fun component =>
    ⟨⟨Node.ofComponent component, []⟩, []⟩

/-- The sites of a context in the order in which they are built. -/
def sites (context : Context) : List Site :=
  context.groupSites ++ context.componentSites

end Context

namespace Target

/-! ## What a site takes over -/

variable (setting : Setting) (context : Context)

def inheritedWithin : List Branch → Inherited
  | [] => inheritedFrom setting context
  | branch :: outer =>
      (Plan.make setting (inheritedWithin outer) branch.node branch.groups).inherited

namespace Site

def plan (site : Site) : Plan :=
  Plan.make setting (inheritedWithin setting context site.around) site.node site.branch.groups

/-- The statements about a site, without those about the groups below it. -/
def directives (site : Site) : List Directive :=
  (buildNode setting (site.plan setting context)).directives

@[simp] theorem plan_node (site : Site) :
    (site.plan setting context).node = site.node := rfl

theorem plan_parent_target (site : Site) :
    (site.plan setting context).parent.target = site.parent := by
  unfold plan parent
  cases site.around with
  | nil => rfl
  | cons outer rest => rfl

def sources (site : Site) : List File :=
  site.options.files.filter fun file => file.isSource && !file.isTemplate

theorem mem_sources {site : Site} {file : File} :
    file ∈ site.sources ↔
      file ∈ site.options.files ∧ file.isSource = true ∧ file.isTemplate = false := by
  rw [sources, List.mem_filter, Bool.and_eq_true, Bool.not_eq_true']

end Site

/-! ## The walk, site by site -/

namespace Emission

@[simp] theorem directives_append (first second : Emission) :
    (first ++ second).directives = first.directives ++ second.directives := rfl

@[simp] theorem findings_append (first second : Emission) :
    (first ++ second).findings = first.findings ++ second.findings := rfl

@[simp] theorem directives_join (emissions : List Emission) :
    (join emissions).directives = emissions.flatMap (·.directives) := by
  induction emissions with
  | nil => rfl
  | cons head tail induction =>
      rw [List.flatMap_cons, ← induction]
      rfl

@[simp] theorem findings_join (emissions : List Emission) :
    (join emissions).findings = emissions.flatMap (·.findings) := by
  induction emissions with
  | nil => rfl
  | cons head tail induction =>
      rw [List.flatMap_cons, ← induction]
      rfl

end Emission

theorem Site.directives_eq (site : Site) :
    site.directives setting context =
      (site.plan setting context).directives ++
        site.sources.flatMap (fun file =>
          (buildFile setting (site.plan setting context) file).directives) ++
        [.blank] := by
  unfold Site.directives buildNode
  simp only [Emission.directives_append, Emission.directives_join, List.flatMap_map]
  rfl

variable {setting context} in
theorem Site.mem_of_buildFile {site : Site} {file : File} (source : file ∈ site.sources)
    {statement : Directive}
    (said : statement ∈ (buildFile setting (site.plan setting context) file).directives) :
    statement ∈ site.directives setting context := by
  rw [Site.directives_eq]
  refine List.mem_append_left _ (List.mem_append_right _ ?_)
  exact List.mem_flatMap.mpr ⟨file, source, said⟩

mutual

theorem directives_buildGroup (around : List Branch) (name : String) : (group : Group) →
    (buildGroup setting (inheritedWithin setting context around) name group).directives =
      (sitesOfGroup around name group).flatMap (Site.directives setting context)
  | ⟨title, options, groups⟩ => by
      let branch : Branch := ⟨Node.ofGroup name ⟨title, options, groups⟩, groups⟩
      have below := directives_buildGroups (branch :: around) (name ++ "_") groups
      rw [buildGroup, sitesOfGroup]
      split
      · simp only [Emission.directives_append, List.flatMap_cons, List.nil_append, List.append_nil]
        exact congrArg (Site.directives setting context ⟨branch, around⟩ ++ ·) below
      · rfl

theorem directives_buildGroups (around : List Branch) (start : String) : (groups : List Group) →
    (buildGroups setting (inheritedWithin setting context around) start groups).directives =
      (sitesOfGroups around start groups).flatMap (Site.directives setting context)
  | [] => by rw [buildGroups, sitesOfGroups]; rfl
  | group :: rest => by
      rw [buildGroups, sitesOfGroups, Emission.directives_append, List.flatMap_append,
        directives_buildGroup around, directives_buildGroups around start rest]

end

theorem directives_buildComponent (component : Component) :
    (buildComponent setting (inheritedFrom setting context) component).directives =
      if hasBuildableFiles component.options.files then
        Site.directives setting context ⟨⟨Node.ofComponent component, []⟩, []⟩
      else [] := by
  unfold buildComponent
  split
  · simp only [Emission.directives_append, List.nil_append, List.append_nil]
    rfl
  · rfl

theorem groups_build :
    (Tree.build setting context).groups =
      context.groupSites.flatMap (Site.directives setting context) :=
  directives_buildGroups setting context [] "Group_" context.groups

theorem components_build :
    (Tree.build setting context).components =
      context.componentSites.flatMap (Site.directives setting context) := by
  have built : (Tree.build setting context).components =
      context.components.flatMap fun component =>
        (buildComponent setting (inheritedFrom setting context) component).directives := by
    simp [Tree.build, List.flatMap_map]
  rw [built, Context.componentSites, List.flatMap_map]
  induction context.components with
  | nil => rfl
  | cons component rest induction =>
      rw [List.flatMap_cons, induction, directives_buildComponent, List.filter_cons]
      split <;> simp

/-- Everything that is said about the groups and components of a context. -/
def Tree.directives (tree : Tree) : List Directive :=
  tree.groups ++ tree.components

theorem directives_build :
    (Tree.build setting context).directives =
      context.sites.flatMap (Site.directives setting context) := by
  rw [Tree.directives, groups_build, components_build, Context.sites, List.flatMap_append]

/-! ## The groups around a site -/

section Around

variable {outer : Branch} {rest : List Branch} {site : Site}

mutual

/-- A group around a site is a site itself that comes earlier, and the site is one of
those below it. The groups around all of the walk are not met on it. -/
theorem around_sitesOfGroup (around : List Branch) (name : String) : (group : Group) →
    site ∈ sitesOfGroup around name group → outer :: rest <:+ site.around →
    outer :: rest <:+ around ∨
      (site ∈ sitesOfGroups (outer :: rest) (outer.node.name ++ "_") outer.groups ∧
        [⟨outer, rest⟩, site].Sublist (sitesOfGroup around name group))
  | ⟨title, options, groups⟩, member, enclosing => by
      rw [sitesOfGroup] at member ⊢
      split at member
      case isFalse => cases member
      case isTrue buildable =>
        rw [if_pos buildable]
        rcases List.mem_cons.mp member with here | below
        · subst here
          exact .inl enclosing
        · rcases around_sitesOfGroups _ _ groups below enclosing with further | ⟨inside, earlier⟩
          · rcases List.suffix_cons_iff.mp further with same | beyond
            · cases same
              exact .inr ⟨below, (List.singleton_sublist.mpr below).cons_cons _⟩
            · exact .inl beyond
          · exact .inr ⟨inside, earlier.cons _⟩

theorem around_sitesOfGroups (around : List Branch) (start : String) : (groups : List Group) →
    site ∈ sitesOfGroups around start groups → outer :: rest <:+ site.around →
    outer :: rest <:+ around ∨
      (site ∈ sitesOfGroups (outer :: rest) (outer.node.name ++ "_") outer.groups ∧
        [⟨outer, rest⟩, site].Sublist (sitesOfGroups around start groups))
  | [], member, _ => by
      rw [sitesOfGroups] at member
      cases member
  | group :: others, member, enclosing => by
      rw [sitesOfGroups] at member ⊢
      rcases List.mem_append.mp member with first | later
      · rcases around_sitesOfGroup around _ group first enclosing with
          outside | ⟨inside, earlier⟩
        · exact .inl outside
        · exact .inr ⟨inside, earlier.trans (List.sublist_append_left _ _)⟩
      · rcases around_sitesOfGroups around start others later enclosing with
          outside | ⟨inside, earlier⟩
        · exact .inl outside
        · exact .inr ⟨inside, earlier.trans (List.sublist_append_right _ _)⟩

end

end Around

end SolutionLists.Target

namespace SolutionLists.Context

open Target

variable {context : Context} {outer : Branch} {rest : List Branch} {site : Site}

theorem around_componentSites (member : site ∈ context.componentSites) :
    site.around = [] := by
  rcases List.mem_map.mp member with ⟨component, _, rfl⟩
  rfl

theorem around_groupSites (member : site ∈ context.groupSites)
    (enclosing : outer :: rest <:+ site.around) :
    site ∈ sitesOfGroups (outer :: rest) (outer.node.name ++ "_") outer.groups ∧
      [⟨outer, rest⟩, site].Sublist context.groupSites := by
  rcases around_sitesOfGroups [] "Group_" context.groups member enclosing with outside | found
  · exact absurd outside (by simp)
  · exact found

theorem mem_sites_of_around (member : site ∈ context.sites)
    (enclosing : site.around = outer :: rest) : (⟨outer, rest⟩ : Site) ∈ context.sites := by
  rcases List.mem_append.mp member with group | component
  · have within : outer :: rest <:+ site.around := enclosing ▸ List.suffix_refl (outer :: rest)
    have earlier := (around_groupSites group within).2
    exact List.mem_append_left _ (earlier.subset List.mem_cons_self)
  · rw [around_componentSites component] at enclosing
    cases enclosing

end SolutionLists.Context
