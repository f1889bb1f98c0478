import SolutionLists.Proofs.Target.Site

namespace SolutionLists

/-! All groups and components of a context, those that are passed over included. The sites
are the ones among them that are built, in the same order. -/

theorem flatMap_ite {α β : Type} (items : List α) (kept : α → Bool) (image : α → β) :
    (items.flatMap fun item => if kept item then [image item] else []) =
      (items.filter kept).map image := by
  induction items with
  | nil => rfl
  | cons item rest induction =>
      rw [List.flatMap_cons, induction]
      cases keep : kept item <;> simp [keep]

mutual

def Group.withBelow : Group → List Group
  | ⟨name, options, groups⟩ => ⟨name, options, groups⟩ :: Group.allWithBelow groups

def Group.allWithBelow : List Group → List Group
  | [] => []
  | group :: rest => group.withBelow ++ Group.allWithBelow rest

end

namespace Context

/-- What all groups, at any depth, and all components ask for. -/
def nodeOptions (context : Context) : List NodeOptions :=
  (Group.allWithBelow context.groups).map (·.options) ++ context.components.map (·.options)

/-- The file lists of a context: one for each group and component, and the constructed
files. -/
def fileLists (context : Context) : List (List File) :=
  context.nodeOptions.map (·.files) ++ [context.constructedFiles]

end Context

namespace Target

/-! ## Which of them are built -/

mutual

theorem filter_withBelow_of_passed : (group : Group) → group.isBuildable = false →
    group.withBelow.filter (·.isBuildable) = []
  | ⟨name, options, groups⟩, passed => by
      rw [Group.withBelow, List.filter_cons, passed, if_neg Bool.false_ne_true]
      rw [Group.isBuildable, Bool.or_eq_false_iff] at passed
      exact filter_allWithBelow_of_passed groups passed.2

theorem filter_allWithBelow_of_passed : (groups : List Group) →
    Group.anyBuildable groups = false →
    (Group.allWithBelow groups).filter (·.isBuildable) = []
  | [], _ => rfl
  | group :: rest, passed => by
      rw [Group.anyBuildable, Bool.or_eq_false_iff] at passed
      rw [Group.allWithBelow, List.filter_append, filter_withBelow_of_passed group passed.1,
        filter_allWithBelow_of_passed rest passed.2, List.append_nil]

end

mutual

theorem options_sitesOfGroup (around : List Branch) (name : String) : (group : Group) →
    (sitesOfGroup around name group).map Site.options =
      (group.withBelow.filter (·.isBuildable)).map (·.options)
  | ⟨title, options, groups⟩ => by
      rw [sitesOfGroup]
      split
      case isTrue built =>
        rw [Group.withBelow, List.filter_cons, Group.isBuildable, if_pos built, List.map_cons,
          List.map_cons, options_sitesOfGroups _ _ groups]
        rfl
      case isFalse passed =>
        rw [filter_withBelow_of_passed]
        · rfl
        · rw [Group.isBuildable]
          exact Bool.eq_false_iff.mpr passed

theorem options_sitesOfGroups (around : List Branch) (start : String) : (groups : List Group) →
    (sitesOfGroups around start groups).map Site.options =
      ((Group.allWithBelow groups).filter (·.isBuildable)).map (·.options)
  | [] => rfl
  | group :: rest => by
      rw [sitesOfGroups, Group.allWithBelow, List.map_append, List.filter_append, List.map_append,
        options_sitesOfGroup around _ group, options_sitesOfGroups around start rest]

end

theorem options_groupSites (context : Context) :
    context.groupSites.map Site.options =
      ((Group.allWithBelow context.groups).filter (·.isBuildable)).map (·.options) :=
  options_sitesOfGroups [] "Group_" context.groups

theorem options_componentSites (context : Context) :
    context.componentSites.map Site.options =
      (context.components.filter (hasBuildableFiles ·.options.files)).map (·.options) := by
  rw [Context.componentSites, List.map_map]
  rfl

theorem options_mem_nodeOptions {context : Context} {site : Site}
    (member : site ∈ context.sites) : site.options ∈ context.nodeOptions := by
  rcases List.mem_append.mp member with group | component
  · have listed : site.options ∈ context.groupSites.map Site.options :=
      List.mem_map_of_mem group
    rw [options_groupSites] at listed
    exact List.mem_append_left _ ((List.filter_sublist.map _).subset listed)
  · have listed : site.options ∈ context.componentSites.map Site.options :=
      List.mem_map_of_mem component
    rw [options_componentSites] at listed
    exact List.mem_append_right _ ((List.filter_sublist.map _).subset listed)

end Target

end SolutionLists
