import SolutionLists.Proofs.Target.Findings
import SolutionLists.Proofs.Target.Sources

namespace SolutionLists

/-! The order in which units are linked. Every unit is linked once, the unit of a node
after the units of its sources and all units of the groups below it. -/

namespace Session

/-- The unit that is linked according to a finding. -/
def Finding.unit? : Finding → Option String
  | linkUnit target => some target
  | _ => none

theorem linkUnits_noteAll (session : Session) (findings : List Finding) :
    (session.noteAll findings).linkUnits =
      session.linkUnits ++ findings.filterMap Finding.unit? := by
  let put := fun (units : List String) (unit : String) => units ++ [unit]
  have step : ∀ (session : Session) (finding : Finding),
      (session.note finding).linkUnits =
        finding.unit?.elim session.linkUnits (put session.linkUnits) := by
    intro session finding
    cases finding with
    | language found =>
        rw [note, addLanguage]
        split <;> rfl
    | _ => rfl
  rw [part_noteAll step, List.foldl_append_eq_append, ← List.flatMap_def,
    List.flatMap_singleton']

end Session

namespace Target

namespace Emission

/-- The units that a part of the walk adds to the link. -/
def units (emission : Emission) : List String :=
  emission.findings.filterMap Session.Finding.unit?

@[simp] theorem units_append (first second : Emission) :
    (first ++ second).units = first.units ++ second.units :=
  List.filterMap_append

@[simp] theorem units_join (emissions : List Emission) :
    (join emissions).units = emissions.flatMap units := by
  rw [units, findings_join, List.filterMap_flatMap]
  rfl

end Emission

namespace Site

/-- The names of the units of a site that compile one source each. -/
def unitNames (site : Site) : List String :=
  (site.sources.filter (·.hasCustomOptions)).map fun file => unitName site.target file.path

theorem targets_eq (site : Site) : site.targets = site.target :: site.unitNames := by
  refine congrArg (site.target :: ·) ?_
  rw [unitNames, ← flatMap_ite]
  refine List.flatMap_congr fun file _ => ?_
  cases custom : file.hasCustomOptions <;> simp [compiling, custom]

def below (site : Site) : List Site :=
  sitesOfGroups (site.branch :: site.around) (site.target ++ "_") site.branch.groups

end Site

variable (setting : Setting) (context : Context)

theorem units_findings (files : List File) :
    (Classification.findings setting.root files).filterMap Session.Finding.unit? = [] :=
  Classification.filterMap_findings setting.root (fun _ => rfl) (fun _ => rfl) files

theorem units_buildFile (plan : Plan) (file : File) :
    (buildFile setting plan file).units =
      if file.hasCustomOptions then [unitName plan.node.name file.path] else [] := by
  unfold buildFile
  rw [Emission.units_append]
  split <;> rfl

theorem units_buildNode (site : Site) :
    (buildNode setting (site.plan setting context)).units = site.unitNames := by
  have plain : (site.plan setting context).findings.filterMap Session.Finding.unit? = [] := by
    rw [Plan.findings]
    cases (site.plan setting context).node.kind <;> rfl
  have ofFiles : (buildNode setting (site.plan setting context)).units =
      (site.plan setting context).findings.filterMap Session.Finding.unit? ++
        (site.sources.flatMap fun file =>
          (buildFile setting (site.plan setting context) file).units) ++ [] := by
    rw [buildNode, Emission.units_append, Emission.units_append, Emission.units_join,
      List.flatMap_map]
    rfl
  rw [ofFiles, plain, List.nil_append, List.append_nil]
  simp only [units_buildFile, flatMap_ite]
  rfl

/-! ## A group and the groups below it -/

mutual

theorem units_preIncludes (root : String) : (group : Group) →
    (group.preIncludes root).filterMap Session.Finding.unit? = []
  | ⟨_, options, groups⟩ => by
      rw [Group.preIncludes, List.filterMap_append, units_allPreIncludes root groups,
        List.filterMap_map, List.append_nil]
      exact List.filterMap_eq_nil_iff.mpr fun _ _ => rfl

theorem units_allPreIncludes (root : String) : (groups : List Group) →
    (Group.allPreIncludes root groups).filterMap Session.Finding.unit? = []
  | [] => rfl
  | group :: rest => by
      rw [Group.allPreIncludes, List.filterMap_append, units_preIncludes root group,
        units_allPreIncludes root rest]
      rfl

end

def Site.unitsBelow (site : Site) : List String :=
  (buildGroups setting (inheritedWithin setting context (site.branch :: site.around))
    (site.target ++ "_") site.branch.groups).units

/-- What is linked for a site and the groups below it. -/
def Site.segment (site : Site) : List String :=
  site.unitNames ++ site.unitsBelow setting context ++ [site.target]

theorem units_buildGroup (around : List Branch) (name title : String) (options : NodeOptions)
    (groups : List Group) :
    (buildGroup setting (inheritedWithin setting context around) name
        ⟨title, options, groups⟩).units =
      if hasBuildableFiles options.files || Group.anyBuildable groups then
        Site.segment setting context ⟨⟨Node.ofGroup name ⟨title, options, groups⟩, groups⟩, around⟩
      else [] := by
  let site : Site := ⟨⟨Node.ofGroup name ⟨title, options, groups⟩, groups⟩, around⟩
  have noted : Emission.units { findings := Classification.findings setting.root options.files } =
      [] := units_findings setting options.files
  rw [buildGroup]
  split
  · simp only [Emission.units_append, noted, List.nil_append]
    exact congrArg (· ++ _ ++ _) (units_buildNode setting context site)
  · rw [Emission.units_append, noted]
    exact units_allPreIncludes setting.root groups

theorem segment_perm {site : Site}
    (below : (site.unitsBelow setting context).Perm (site.below.flatMap Site.targets)) :
    (site.segment setting context).Perm (site.targets ++ site.below.flatMap Site.targets) := by
  rw [Site.targets_eq]
  exact List.perm_append_comm.trans ((below.append_left _).cons _)

mutual

theorem units_buildGroup_perm (around : List Branch) (name : String) : (group : Group) →
    (buildGroup setting (inheritedWithin setting context around) name group).units.Perm
      ((sitesOfGroup around name group).flatMap Site.targets)
  | ⟨title, options, groups⟩ => by
      let site : Site := ⟨⟨Node.ofGroup name ⟨title, options, groups⟩, groups⟩, around⟩
      have below : (site.unitsBelow setting context).Perm (site.below.flatMap Site.targets) :=
        units_buildGroups_perm (site.branch :: around) (name ++ "_") groups
      rw [units_buildGroup, sitesOfGroup]
      split
      · rw [List.flatMap_cons]
        exact segment_perm setting context below
      · rfl

theorem units_buildGroups_perm (around : List Branch) (start : String) : (groups : List Group) →
    (buildGroups setting (inheritedWithin setting context around) start groups).units.Perm
      ((sitesOfGroups around start groups).flatMap Site.targets)
  | [] => by
      rw [buildGroups, sitesOfGroups]
      rfl
  | group :: rest => by
      rw [buildGroups, sitesOfGroups, Emission.units_append, List.flatMap_append]
      exact (units_buildGroup_perm around _ group).append (units_buildGroups_perm around start rest)

end

theorem unitsBelow_perm (site : Site) :
    (site.unitsBelow setting context).Perm (site.below.flatMap Site.targets) :=
  units_buildGroups_perm setting context _ _ _

mutual

theorem segment_buildGroup {site : Site} (around : List Branch) (name : String) :
    (group : Group) → site ∈ sitesOfGroup around name group →
    site.segment setting context <:+:
      (buildGroup setting (inheritedWithin setting context around) name group).units
  | ⟨title, options, groups⟩, member => by
      rw [sitesOfGroup] at member
      rw [units_buildGroup]
      split at member
      case isFalse => cases member
      case isTrue buildable =>
        rw [if_pos buildable]
        rcases List.mem_cons.mp member with here | below
        · rw [here]
        · have inside := segment_buildGroups _ _ groups below
          exact List.infix_append_of_infix_left (List.infix_append_of_infix_right inside)

theorem segment_buildGroups {site : Site} (around : List Branch) (start : String) :
    (groups : List Group) → site ∈ sitesOfGroups around start groups →
    site.segment setting context <:+:
      (buildGroups setting (inheritedWithin setting context around) start groups).units
  | [], member => by
      rw [sitesOfGroups] at member
      cases member
  | group :: rest, member => by
      rw [sitesOfGroups] at member
      rw [buildGroups, Emission.units_append]
      rcases List.mem_append.mp member with first | later
      · exact List.infix_append_of_infix_left (segment_buildGroup around _ group first)
      · exact List.infix_append_of_infix_right (segment_buildGroups around start rest later)

end

/-! ## All of a context -/

theorem units_buildComponent (component : Component) :
    (buildComponent setting (inheritedFrom setting context) component).units =
      if hasBuildableFiles component.options.files then
        Site.segment setting context ⟨⟨Node.ofComponent component, []⟩, []⟩
      else [] := by
  let site : Site := ⟨⟨Node.ofComponent component, []⟩, []⟩
  have noted : Emission.units
      { findings := Classification.findings setting.root component.options.files } = [] :=
    units_findings setting component.options.files
  have alone : site.unitsBelow setting context = [] := by
    rw [Site.unitsBelow, buildGroups]
    rfl
  unfold buildComponent
  split
  · rw [Site.segment, alone, List.append_nil]
    simp only [Emission.units_append, noted, List.nil_append]
    exact congrArg (· ++ _) (units_buildNode setting context site)
  · exact noted

theorem linkUnits_build :
    (Tree.build setting context).session.linkUnits =
      (buildGroups setting (inheritedFrom setting context) "Group_" context.groups).units ++
        context.componentSites.flatMap (Site.segment setting context) := by
  have ofComponents : (context.components.flatMap fun component =>
      (buildComponent setting (inheritedFrom setting context) component).units) =
        context.componentSites.flatMap (Site.segment setting context) := by
    rw [Context.componentSites, List.flatMap_map]
    induction context.components with
    | nil => rfl
    | cons component rest induction =>
        rw [List.flatMap_cons, induction, units_buildComponent, List.filter_cons]
        split <;> simp
  refine (Session.linkUnits_noteAll _ _).trans ?_
  rw [List.nil_append, List.filterMap_append, List.filterMap_append, units_findings,
    List.append_nil, ← ofComponents]
  refine congrArg (_ ++ ·) ?_
  exact (Emission.units_join _).trans (List.flatMap_map ..)

theorem linkUnits_perm :
    (Tree.build setting context).session.linkUnits.Perm
      ((Tree.build setting context).directives.filterMap Directive.definedTarget?) := by
  have defined : (Tree.build setting context).targets =
      Target.context :: context.sites.flatMap Site.targets := targets_build context
  rw [linkUnits_build, (List.cons.inj defined).2, Context.sites, List.flatMap_append]
  refine (units_buildGroups_perm setting context [] _ _).append ?_
  refine List.Perm.flatMap_left _ fun site member => ?_
  rcases List.mem_map.mp member with ⟨component, _, rfl⟩
  have alone := segment_perm setting context (unitsBelow_perm setting context
    ⟨⟨Node.ofComponent component, []⟩, []⟩)
  rwa [Site.below, sitesOfGroups, List.flatMap_nil, List.append_nil] at alone

theorem segment_linkUnits {site : Site} (member : site ∈ context.sites) :
    site.segment setting context <:+: (Tree.build setting context).session.linkUnits := by
  rw [linkUnits_build]
  rcases List.mem_append.mp member with group | component
  · refine List.infix_append_of_infix_left ?_
    exact segment_buildGroups setting context [] "Group_" context.groups group
  · refine List.infix_append_of_infix_right ?_
    exact List.infix_of_mem_flatten (List.mem_map_of_mem component)

end Target

end SolutionLists
