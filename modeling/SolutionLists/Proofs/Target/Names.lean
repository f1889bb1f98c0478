import SolutionLists.Proofs.Target.LinkOrder
import SolutionLists.Proofs.Target.Nodes
import SolutionLists.Proofs.Text

namespace SolutionLists

open Target

/-! Names of the targets of a context. Each is the name of a node, or that name and a label
behind an underscore. They differ where the labels below one name differ and none of them
starts with another one and an underscore. -/

/-! ## Names that start others -/

namespace Target

def joined (name label : String) : String :=
  name ++ "_" ++ label

/-- Whether a name is another one, or that one with a label behind an underscore. -/
def Extends (start name : String) : Prop :=
  name = start ∨ ∃ label, name = joined start label

/-- Whether labels that stand behind one name keep all names apart: they differ, and none
starts with one of `branches`, which have more labels behind them, and an underscore. -/
def KeepApart (branches leaves : List String) : Prop :=
  (branches ++ leaves).Nodup ∧
    ∀ branch ∈ branches, ∀ label ∈ branches ++ leaves,
      Text.startsWith label (branch ++ "_") = false

instance (branches leaves : List String) : Decidable (KeepApart branches leaves) :=
  inferInstanceAs (Decidable (_ ∧ _))

theorem toList_joined (name label : String) :
    (joined name label).toList = name.toList ++ '_' :: label.toList := by
  simp [joined]

theorem Extends.refl (name : String) : Extends name name := .inl rfl

theorem Extends.joined (name label : String) : Extends name (joined name label) :=
  .inr ⟨label, rfl⟩

theorem Extends.trans {first second third : String} (start : Extends first second)
    (further : Extends second third) : Extends first third := by
  rcases start with rfl | ⟨label, rfl⟩
  · exact further
  · rcases further with rfl | ⟨last, rfl⟩
    · exact .joined first label
    · exact .inr ⟨Target.joined label last, by simp [Target.joined, String.append_assoc]⟩

theorem joined_bundle (name : String) : joined name "ABSTRACTIONS" = bundleOf name := by
  rw [joined, bundleOf, String.append_assoc]
  rfl

theorem joined_inj {name first second : String} (same : joined name first = joined name second) :
    first = second :=
  (String.append_right_inj (name ++ "_")).mp same

theorem not_extends_joined (name label : String) : ¬ Extends (joined name label) name := by
  have longer : ∀ name label : String, name.length < (joined name label).length := by
    intro name label
    have bar : "_".length = 1 := rfl
    simp only [joined, String.length_append, bar]
    omega
  rintro (same | ⟨further, same⟩)
  · exact absurd (longer name label) (same ▸ Nat.lt_irrefl _)
  · have lengths := (longer name label).trans (longer (joined name label) further)
    rw [← same] at lengths
    exact Nat.lt_irrefl _ lengths

theorem extends_append {start first second : String} :
    Extends (start ++ first) (start ++ second) ↔ Extends first second := by
  unfold Extends joined
  simp only [String.append_assoc, String.append_right_inj]

theorem extends_total {first second name : String} (starts : Extends first name)
    (others : Extends second name) : Extends first second ∨ Extends second first := by
  have prefixes : ∀ start, Extends start name → start.toList <+: name.toList := by
    rintro start (rfl | ⟨label, rfl⟩)
    · exact List.prefix_refl _
    · exact ⟨'_' :: label.toList, (toList_joined start label).symm⟩
  -- The shorter one is followed by an underscore in the name, and so in the longer one.
  have longer : ∀ start other, Extends start name → Extends other name →
      start.toList <+: other.toList → Extends start other := by
    intro start other starts others short
    rcases starts with rfl | ⟨label, rfl⟩
    · exact .inl (String.toList_inj.mp (short.eq_of_length_le (prefixes other others).length_le)).symm
    · rcases short with ⟨rest, whole⟩
      rcases prefixes other others with ⟨last, behind⟩
      rw [← whole, toList_joined, List.append_assoc, List.append_cancel_left_eq] at behind
      cases rest with
      | nil => exact .inl (String.toList_inj.mp (by simpa using whole.symm))
      | cons char chars =>
          refine .inr ⟨String.ofList chars, ?_⟩
          rw [← String.toList_inj, ← whole, toList_joined, (List.cons.inj behind).1,
            String.toList_ofList]
  rcases List.prefix_or_prefix_of_prefix (prefixes first starts) (prefixes second others) with
    short | short
  · exact .inl (longer first second starts others short)
  · exact .inr (longer second first others starts short)

section KeepApart

variable {branches leaves : List String} (apart : KeepApart branches leaves)
include apart

theorem KeepApart.eq_of_extends {branch label : String} (isBranch : branch ∈ branches)
    (isLabel : label ∈ branches ++ leaves) (starts : Extends branch label) : label = branch := by
  refine starts.resolve_right ?_
  rintro ⟨rest, whole⟩
  have behind := apart.2 branch isBranch label isLabel
  rw [Text.startsWith_iff.mpr ⟨rest, whole⟩] at behind
  cases behind

theorem KeepApart.eq_of_common {first second name : String} (isFirst : first ∈ branches)
    (isSecond : second ∈ branches) (starts : Extends first name) (others : Extends second name) :
    first = second := by
  rcases extends_total starts others with short | short
  · exact (apart.eq_of_extends isFirst (List.mem_append_left _ isSecond) short).symm
  · exact apart.eq_of_extends isSecond (List.mem_append_left _ isFirst) short

theorem KeepApart.behind (start : String) :
    KeepApart (branches.map (start ++ ·)) (leaves.map (start ++ ·)) := by
  have inFront : Function.Injective (start ++ ·) := fun _ _ => (String.append_right_inj start).mp
  refine ⟨List.map_append ▸ apart.1.map inFront, ?_⟩
  intro branch isBranch label isLabel
  rw [← List.map_append] at isLabel
  rcases List.mem_map.mp isBranch with ⟨bare, inside, rfl⟩
  rcases List.mem_map.mp isLabel with ⟨other, otherInside, rfl⟩
  rw [← apart.2 bare inside other otherInside, Bool.eq_iff_iff]
  simp [Text.startsWith, List.prefix_append_right_inj]

end KeepApart

/-- Names of which each starts with the one of its block differ where the names of the
blocks keep apart. -/
theorem nodup_blocks {ι : Type} {items : List ι} {name : ι → String} {block : ι → List String}
    {leaves : List String} (apart : KeepApart (items.map name) leaves)
    (starts : ∀ item ∈ items, ∀ found ∈ block item, Extends (name item) found)
    (once : ∀ item ∈ items, (block item).Nodup) : (items.flatMap block).Nodup := by
  have different : items.Pairwise fun first second => name first ≠ name second :=
    List.pairwise_map.mp (List.nodup_append.mp apart.1).1
  refine List.nodup_flatMap.mpr ⟨once, different.imp_of_mem ?_⟩
  intro first second isFirst isSecond apartNames found inFirst inSecond
  exact apartNames (apart.eq_of_common (List.mem_map_of_mem isFirst)
    (List.mem_map_of_mem isSecond) (starts first isFirst found inFirst)
    (starts second isSecond found inSecond))

end Target

/-! ## Names and labels of a context -/

/-- The target that a statement brings into being, be it a unit or the library of a bundle. -/
def Directive.broughtTarget? : Directive → Option String
  | addLibrary name _ => some name
  | abstractionsBundle owner _ _ => some (Target.bundleOf owner)
  | _ => none

namespace Target

variable (setting : Setting) (context : Context)

def groupLabels (groups : List Group) : List String :=
  (groups.filter (·.isBuildable)).map fun group => nameOf group.name

namespace Site

/-- The labels of the libraries of a site besides its own: its bundle, and the units of
sources. -/
def labels (site : Site) : List String :=
  (if (site.plan setting context).ownsBundle then ["ABSTRACTIONS"] else []) ++
    (site.sources.filter (·.hasCustomOptions)).map fun file => nameOf file.path

def names (site : Site) : List String :=
  site.target :: (site.labels setting context).map (joined site.target)

/-- Whether the labels of a site and those of the groups below it keep names apart. -/
def KeepsApart (site : Site) : Prop :=
  KeepApart (groupLabels site.branch.groups) (site.labels setting context)

instance (site : Site) : Decidable (site.KeepsApart setting context) :=
  inferInstanceAs (Decidable (KeepApart _ _))

end Site

theorem brought_node (plan : Plan) :
    plan.directives.filterMap Directive.broughtTarget? =
      plan.node.name :: if plan.ownsBundle then [bundleOf plan.node.name] else [] := by
  simp [Plan.directives, Directive.broughtTarget?, List.filterMap_cons,
    apply_ite (List.filterMap Directive.broughtTarget?)]

theorem brought_file (plan : Plan) (file : File) :
    (buildFile setting plan file).directives.filterMap Directive.broughtTarget? =
      if file.hasCustomOptions then [unitName plan.node.name file.path] else [] := by
  simp [buildFile, customUnit, Directive.broughtTarget?, List.filterMap_cons, List.filterMap_map,
    Function.comp_def, apply_ite (List.filterMap Directive.broughtTarget?),
    apply_ite Emission.directives]

theorem brought_site (site : Site) :
    (site.directives setting context).filterMap Directive.broughtTarget? =
      site.names setting context := by
  rw [filterMap_directives setting context _ site rfl, brought_node]
  simp only [brought_file, flatMap_ite]
  rw [Site.names, Site.labels, List.map_append, List.map_map]
  cases owns : (site.plan setting context).ownsBundle
  · rfl
  · rw [if_pos rfl, if_pos rfl, List.map_singleton, joined_bundle]
    rfl

theorem brought_build :
    (Tree.build setting context).directives.filterMap Directive.broughtTarget? =
      context.sites.flatMap (Site.names setting context) := by
  rw [directives_build, List.filterMap_flatMap]
  exact List.flatMap_congr fun site _ => brought_site setting context site

/-! ## Groups -/

theorem sitesOfGroup_of_passed (around : List Branch) (name : String) {group : Group}
    (passed : group.isBuildable = false) : sitesOfGroup around name group = [] := by
  cases group with
  | mk title options groups =>
      rw [Group.isBuildable] at passed
      rw [sitesOfGroup, passed, if_neg Bool.false_ne_true]

theorem sitesOfGroups_eq (around : List Branch) (start : String) (groups : List Group) :
    sitesOfGroups around start groups =
      (groups.filter (·.isBuildable)).flatMap fun group =>
        sitesOfGroup around (start ++ nameOf group.name) group := by
  induction groups with
  | nil => rfl
  | cons group rest induction =>
      rw [sitesOfGroups, induction, List.filter_cons]
      cases built : group.isBuildable with
      | true => rfl
      | false => rw [sitesOfGroup_of_passed around _ built]; rfl

section Groups

variable {setting context}

theorem extends_names {site : Site} {found : String}
    (member : found ∈ site.names setting context) : Extends site.target found := by
  rcases List.mem_cons.mp member with rfl | labelled
  · exact .refl _
  · rcases List.mem_map.mp labelled with ⟨label, _, rfl⟩
    exact .joined _ _

theorem nodup_names {site : Site} (labels : (site.labels setting context).Nodup) :
    (site.names setting context).Nodup := by
  refine List.nodup_cons.mpr ⟨?_, labels.map fun _ _ => joined_inj⟩
  intro inside
  rcases List.mem_map.mp inside with ⟨label, _, same⟩
  exact not_extends_joined site.target label (.inl same.symm)

mutual

theorem extends_sitesOfGroup (around : List Branch) (name : String) : (group : Group) →
    ∀ found ∈ (sitesOfGroup around name group).flatMap (Site.names setting context),
      Extends name found
  | ⟨title, options, groups⟩, found, member => by
      rw [sitesOfGroup] at member
      split at member
      case isFalse => cases member
      case isTrue =>
        rcases List.mem_append.mp (List.flatMap_cons ▸ member) with own | below
        · exact extends_names own
        · rcases extends_sitesOfGroups _ _ groups found below with ⟨label, _, starts⟩
          exact (Extends.joined name label).trans starts

theorem extends_sitesOfGroups (around : List Branch) (start : String) : (groups : List Group) →
    ∀ found ∈ (sitesOfGroups around start groups).flatMap (Site.names setting context),
      ∃ label ∈ groupLabels groups, Extends (start ++ label) found
  | [], found, member => by
      rw [sitesOfGroups] at member
      cases member
  | group :: rest, found, member => by
      rw [sitesOfGroups, List.flatMap_append] at member
      rcases List.mem_append.mp member with first | later
      · cases built : group.isBuildable with
        | true =>
            refine ⟨nameOf group.name, ?_, extends_sitesOfGroup around _ group found first⟩
            simp [groupLabels, built]
        | false =>
            rw [sitesOfGroup_of_passed around _ built] at first
            cases first
      · rcases extends_sitesOfGroups around start rest found later with ⟨label, inside, starts⟩
        refine ⟨label, ?_, starts⟩
        exact ((List.sublist_cons_self group rest).filter _ |>.map _).subset inside

end

theorem nodup_sitesOfGroups_of {around : List Branch} {start : String} {groups : List Group}
    {leaves : List String} (apart : KeepApart ((groupLabels groups).map (start ++ ·)) leaves)
    (once : ∀ group ∈ groups,
      ((sitesOfGroup around (start ++ nameOf group.name) group).flatMap
        (Site.names setting context)).Nodup) :
    ((sitesOfGroups around start groups).flatMap (Site.names setting context)).Nodup := by
  rw [sitesOfGroups_eq, List.flatMap_assoc]
  rw [groupLabels, List.map_map] at apart
  refine nodup_blocks apart (fun group _ => ?_) fun group member => ?_
  · exact extends_sitesOfGroup around _ group
  · exact once group (List.mem_of_mem_filter member)

mutual

theorem nodup_sitesOfGroup (around : List Branch) (name : String) : (group : Group) →
    (∀ site ∈ sitesOfGroup around name group, site.KeepsApart setting context) →
    ((sitesOfGroup around name group).flatMap (Site.names setting context)).Nodup
  | ⟨title, options, groups⟩, apart => by
      rw [sitesOfGroup] at apart ⊢
      split at apart
      case isFalse passed =>
        rw [if_neg passed]
        exact List.nodup_nil
      case isTrue built =>
        rw [if_pos built]
        have here := apart _ List.mem_cons_self
        have each := nodup_eachGroup (⟨Node.ofGroup name ⟨title, options, groups⟩, groups⟩ :: around)
          (name ++ "_") groups fun site member => apart site (List.mem_cons_of_mem _ member)
        have labels := List.nodup_append.mp here.1
        refine List.nodup_append.mpr ⟨nodup_names labels.2.1,
          nodup_sitesOfGroups_of (here.behind (name ++ "_")) each, ?_⟩
        intro own isOwn below isBelow same
        subst same
        rcases extends_sitesOfGroups _ _ groups own isBelow with ⟨label, isLabel, starts⟩
        rcases List.mem_cons.mp isOwn with atTarget | labelled
        · rw [atTarget] at starts
          exact not_extends_joined name label starts
        · rcases List.mem_map.mp labelled with ⟨leaf, isLeaf, rfl⟩
          have equal := here.eq_of_extends isLabel (List.mem_append_right _ isLeaf)
            (extends_append.mp starts)
          exact labels.2.2 label isLabel leaf isLeaf equal.symm

theorem nodup_eachGroup (around : List Branch) (start : String) : (groups : List Group) →
    (∀ site ∈ sitesOfGroups around start groups, site.KeepsApart setting context) →
    ∀ group ∈ groups, ((sitesOfGroup around (start ++ nameOf group.name) group).flatMap
      (Site.names setting context)).Nodup
  | [], _, _, member => nomatch member
  | first :: rest, apart, group, member => by
      rw [sitesOfGroups] at apart
      rcases List.mem_cons.mp member with here | later
      · rw [here]
        exact nodup_sitesOfGroup around _ first fun site inside =>
          apart site (List.mem_append_left _ inside)
      · exact nodup_eachGroup around start rest
          (fun site inside => apart site (List.mem_append_right _ inside)) group later

end

/-! ## Labels that names need -/

theorem groupTargets_sublist (around : List Branch) (start : String) (groups : List Group) :
    ((groupLabels groups).map (start ++ ·)).Sublist
      ((sitesOfGroups around start groups).flatMap (Site.names setting context)) := by
  rw [sitesOfGroups_eq, List.flatMap_assoc, groupLabels, List.map_map, List.map_eq_flatMap]
  refine List.Sublist.flatMap_right _ fun group member => ?_
  have built := (List.mem_filter.mp member).2
  cases group with
  | mk title options groups =>
      rw [Group.isBuildable] at built
      rw [sitesOfGroup, if_pos built, List.singleton_sublist]
      exact List.mem_flatMap.mpr ⟨_, List.mem_cons_self, List.mem_cons_self⟩

theorem nodup_labels_of_names {site : Site}
    (names : (site.names setting context ++
      site.below.flatMap (Site.names setting context)).Nodup) :
    (groupLabels site.branch.groups ++ site.labels setting context).Nodup := by
  have parts := List.nodup_append.mp names
  have own : (site.labels setting context).Nodup := (List.nodup_cons.mp parts.1).2.of_map
  have groups : ((groupLabels site.branch.groups).map (joined site.target)).Sublist
      (site.below.flatMap (Site.names setting context)) := groupTargets_sublist _ _ _
  refine List.nodup_append.mpr ⟨(parts.2.1.sublist groups).of_map, own, ?_⟩
  intro label isLabel leaf isLeaf same
  subst same
  exact parts.2.2 _ (List.mem_cons_of_mem _ (List.mem_map_of_mem isLeaf)) _
    (groups.subset (List.mem_map_of_mem isLabel)) rfl

mutual

theorem nodup_labels_sitesOfGroup (around : List Branch) (name : String) : (group : Group) →
    ((sitesOfGroup around name group).flatMap (Site.names setting context)).Nodup →
    ∀ site ∈ sitesOfGroup around name group,
      (groupLabels site.branch.groups ++ site.labels setting context).Nodup
  | ⟨title, options, groups⟩, names, site, member => by
      rw [sitesOfGroup] at names member
      split at member
      case isFalse => cases member
      case isTrue built =>
        rw [if_pos built, List.flatMap_cons] at names
        rcases List.mem_cons.mp member with here | below
        · rw [here]
          exact nodup_labels_of_names names
        · exact nodup_labels_sitesOfGroups _ _ groups (List.nodup_append.mp names).2.1 site below

theorem nodup_labels_sitesOfGroups (around : List Branch) (start : String) :
    (groups : List Group) →
    ((sitesOfGroups around start groups).flatMap (Site.names setting context)).Nodup →
    ∀ site ∈ sitesOfGroups around start groups,
      (groupLabels site.branch.groups ++ site.labels setting context).Nodup
  | [], _, _, member => by
      rw [sitesOfGroups] at member
      cases member
  | group :: rest, names, site, member => by
      rw [sitesOfGroups, List.flatMap_append] at names
      rw [sitesOfGroups] at member
      have parts := List.nodup_append.mp names
      rcases List.mem_append.mp member with first | later
      · exact nodup_labels_sitesOfGroup around _ group parts.1 site first
      · exact nodup_labels_sitesOfGroups around start rest parts.2.1 site later

end

end Groups

end Target

/-! ## All of a context -/

namespace Context

open Target

/-- The names of the nodes that are built and lie in no other one. -/
def topNames (context : Context) : List String :=
  (groupLabels context.groups).map ("Group_" ++ ·) ++
    (context.components.filter (hasBuildableFiles ·.options.files)).map fun component =>
      nameOf component.identifier

/-- Whether labels keep names apart at the top of a context and at every site. -/
def KeepsApart (setting : Setting) (context : Context) : Prop :=
  KeepApart context.topNames [] ∧ ∀ site ∈ context.sites, site.KeepsApart setting context

instance (setting : Setting) (context : Context) : Decidable (context.KeepsApart setting) :=
  inferInstanceAs (Decidable (_ ∧ _))

variable {setting : Setting} {context : Context}

theorem nodup_names (apart : context.KeepsApart setting) :
    (context.sites.flatMap (Site.names setting context)).Nodup := by
  let name : Group ⊕ Component → String :=
    Sum.elim (fun group => "Group_" ++ nameOf group.name) fun component =>
      nameOf component.identifier
  let block : Group ⊕ Component → List String :=
    Sum.elim
      (fun group => (sitesOfGroup [] ("Group_" ++ nameOf group.name) group).flatMap
        (Site.names setting context))
      fun component => Site.names setting context ⟨⟨Node.ofComponent component, []⟩, []⟩
  let groups := context.groups.filter (·.isBuildable)
  let components := context.components.filter (hasBuildableFiles ·.options.files)
  let items : List (Group ⊕ Component) := groups.map .inl ++ components.map .inr
  have top : items.map name = context.topNames := by
    simp [items, groups, components, name, topNames, groupLabels, Function.comp_def]
  have whole : context.sites.flatMap (Site.names setting context) = items.flatMap block := by
    simp [items, groups, components, block, sites, groupSites, componentSites, sitesOfGroups_eq,
      List.flatMap_assoc, List.flatMap_map]
  have each := nodup_eachGroup [] "Group_" context.groups fun site member =>
    apart.2 site (List.mem_append_left _ member)
  rw [whole]
  apply nodup_blocks (top ▸ apart.1)
  · rintro (group | component) _ found member
    · exact extends_sitesOfGroup [] _ group found member
    · exact extends_names member
  · intro item member
    rcases List.mem_append.mp member with isGroup | isComponent
    · rcases List.mem_map.mp isGroup with ⟨group, built, rfl⟩
      exact each group (List.mem_of_mem_filter built)
    · rcases List.mem_map.mp isComponent with ⟨component, built, rfl⟩
      have here := apart.2 _ (List.mem_append_right _ (List.mem_map_of_mem built))
      exact Target.nodup_names (List.nodup_append.mp here.1).2.1

theorem nodup_labels (names : (context.sites.flatMap (Site.names setting context)).Nodup) :
    context.topNames.Nodup ∧ ∀ site ∈ context.sites,
      (groupLabels site.branch.groups ++ site.labels setting context).Nodup := by
  rw [sites, List.flatMap_append] at names
  have parts := List.nodup_append.mp names
  constructor
  · have components : ((context.components.filter (hasBuildableFiles ·.options.files)).map
        fun component => nameOf component.identifier).Sublist
          (context.componentSites.flatMap (Site.names setting context)) := by
      rw [componentSites, List.flatMap_map, List.map_eq_flatMap]
      exact List.Sublist.flatMap_right _ fun component _ =>
        List.singleton_sublist.mpr List.mem_cons_self
    exact names.sublist ((groupTargets_sublist _ _ _).append components)
  · intro site member
    rcases List.mem_append.mp member with group | component
    · exact nodup_labels_sitesOfGroups [] "Group_" context.groups parts.1 site group
    · have own := (List.nodup_flatMap.mp parts.2.1).1 site component
      rcases List.mem_map.mp component with ⟨_, _, rfl⟩
      apply nodup_labels_of_names
      rw [Site.below, sitesOfGroups, List.flatMap_nil, List.append_nil]
      exact own

/-- Whether groups that lie in one place, components, and sources of one node with units of
their own differ in what the description calls them. -/
def SiblingsDiffer (context : Context) : Prop :=
  (context.groups.map (·.name)).Nodup ∧
    (∀ group ∈ Group.allWithBelow context.groups, (group.groups.map (·.name)).Nodup) ∧
    (context.components.map (·.identifier)).Nodup ∧
    ∀ options ∈ context.nodeOptions,
      ((options.files.filter fun file => file.isBuiltSource && file.hasCustomOptions).map
        (·.path)).Nodup

instance (context : Context) : Decidable context.SiblingsDiffer :=
  inferInstanceAs (Decidable (_ ∧ _))

end Context

/-- No two targets of a context share a name where labels keep names apart, and where they do
not even differ, some do. -/
theorem target_names_distinct (setting : Setting) (context : Context) :
    let names := (Tree.build setting context).directives.filterMap Directive.broughtTarget?
    (context.KeepsApart setting → names.Nodup) ∧
      (names.Nodup → context.topNames.Nodup ∧ ∀ site ∈ context.sites,
        (groupLabels site.branch.groups ++ site.labels setting context).Nodup) := by
  intro names
  have listed : names = context.sites.flatMap (Site.names setting context) :=
    brought_build setting context
  rw [listed]
  exact ⟨Context.nodup_names, Context.nodup_labels⟩

private def sourceFiles (paths : List String) : List File :=
  paths.map fun path => { path, category := "sourceC" }

/-- A group with a bundle, a unit of a source and a group below it beside a component. -/
private def labelledApart : Context where
  groups :=
    [{ name := "App Core"
       options :=
         { abstractions := { optimize := "size" }
           files := sourceFiles ["./main.c"] ++
             [{ path := "./unit.c", category := "sourceC", define := [{ name := "UNIT" }] }] }
       groups := [{ name := "Drivers", options := { files := sourceFiles ["./uart.c"] } }] },
      { name := "Docs", options := { files := [{ path := "./a.md", category := "doc" }] } }]
  components :=
    [{ identifier := "ARM::CMSIS:CORE", options := { files := sourceFiles ["./core.c"] } }]

theorem target_names_distinct_labelled :
    labelledApart.KeepsApart ⟨"app", "GCC"⟩ ∧
      ((Tree.build ⟨"app", "GCC"⟩ labelledApart).directives.filterMap
        Directive.broughtTarget?).Nodup ∧
      (Tree.build ⟨"app", "GCC"⟩ labelledApart).directives.filterMap Directive.broughtTarget? =
        ["Group_App_Core", "Group_App_Core_ABSTRACTIONS", "Group_App_Core___unit_c",
          "Group_App_Core_Drivers", "ARM_CMSIS_CORE"] := by
  have apart : labelledApart.KeepsApart ⟨"app", "GCC"⟩ := by decide +kernel
  exact ⟨apart, (target_names_distinct ⟨"app", "GCC"⟩ labelledApart).1 apart, by decide +kernel⟩

/-- Two groups that are told apart by a delimiter alone. -/
private def delimitedGroups : Context where
  groups :=
    [{ name := "A B", options := { files := sourceFiles ["./a.c"] } },
      { name := "A.B", options := { files := sourceFiles ["./b.c"] } }]

/-- A group below another one, and a group that is called like both joined. -/
private def joinedGroups : Context where
  groups :=
    [{ name := "A"
       options := { files := sourceFiles ["./a.c"] }
       groups := [{ name := "B", options := { files := sourceFiles ["./b.c"] } }] },
      { name := "A_B", options := { files := sourceFiles ["./c.c"] } }]

/-- Siblings that differ may share a name: one label may stand for both, or go on behind the
other as the name of a unit does. -/
theorem differing_siblings_share_names :
    ¬ (∀ (setting : Setting) (context : Context), context.SiblingsDiffer →
        ((Tree.build setting context).directives.filterMap Directive.broughtTarget?).Nodup) ∧
      ∀ context ∈ [delimitedGroups, joinedGroups], context.SiblingsDiffer ∧
        ¬ ((Tree.build ⟨"app", "GCC"⟩ context).directives.filterMap
          Directive.broughtTarget?).Nodup := by
  have shared : ∀ context ∈ [delimitedGroups, joinedGroups], context.SiblingsDiffer ∧
      ¬ ((Tree.build ⟨"app", "GCC"⟩ context).directives.filterMap
        Directive.broughtTarget?).Nodup := by
    decide +kernel
  refine ⟨fun distinct => ?_, shared⟩
  have both := shared delimitedGroups List.mem_cons_self
  exact both.2 (distinct _ _ both.1)

end SolutionLists
