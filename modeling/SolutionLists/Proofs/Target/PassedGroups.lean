import SolutionLists.Proofs.Target.Heard
import SolutionLists.Proofs.Target.References

namespace SolutionLists

/-! Groups in which nothing is left to build are passed over. Without them a context is built
as it was, but for the compile options of a group that has nothing to compile and only such
groups below it: having groups below is enough for it to say them. -/

open Target

/-! ## What is found out -/

namespace Session

def Finding.isPreInclude : Finding → Bool
  | preInclude _ => true
  | _ => false

/-- Everything that is found out but for the global pre-includes. -/
def apart (session : Session) : Session :=
  { session with preIncludeGlobal := [] }

theorem apart_note (session : Session) (finding : Finding) :
    (session.note finding).apart =
      (Option.guard (!·.isPreInclude) finding).elim session.apart session.apart.note := by
  cases finding with
  | language language =>
      change (session.addLanguage language).apart = session.apart.addLanguage language
      rw [addLanguage, addLanguage]
      split <;> rfl
  | _ => rfl

theorem apart_noteAll (session : Session) (findings : List Finding) :
    (session.noteAll findings).apart =
      session.apart.noteAll (findings.filter (!·.isPreInclude)) := by
  rw [part_noteAll apart_note, List.filterMap_eq_filter, noteAll]

end Session

/-! ## What is said -/

def Directive.isOptionsOf (target : String) : Directive → Bool
  | compileOptions other .. => other = target
  | _ => false

theorem kept_of_flatMap_filter {α β : Type} {items : List α} {parts : α → List β}
    {keeps : α → β → Bool}
    (same : (items.flatMap fun item => (parts item).filter (keeps item)) = items.flatMap parts) :
    ∀ item ∈ items, ∀ part ∈ parts item, keeps item part = true := by
  have shorter : ∀ items : List α,
      (items.flatMap fun item => (parts item).filter (keeps item)).length ≤
        (items.flatMap parts).length := by
    intro items
    induction items with
    | nil => exact Nat.le_refl 0
    | cons item rest induction =>
        rw [List.flatMap_cons, List.flatMap_cons, List.length_append, List.length_append]
        exact Nat.add_le_add (List.length_filter_le _ _) induction
  induction items with
  | nil => intro item member; cases member
  | cons item rest induction =>
      rw [List.flatMap_cons, List.flatMap_cons] at same
      have lengths := congrArg List.length same
      rw [List.length_append, List.length_append] at lengths
      have here := List.length_filter_le (keeps item) (parts item)
      have later := shorter rest
      have whole : ((parts item).filter (keeps item)).length = (parts item).length := by omega
      have parted := List.append_inj same whole
      intro other member part listed
      rcases List.mem_cons.mp member with rfl | further
      · exact List.filter_eq_self.mp parted.1 part listed
      · exact induction parted.2 other further part listed

namespace Target

/-- A group that has nothing to compile and only groups below it that are passed over. -/
def Site.isIdle (site : Site) : Bool :=
  site.node.kind = .group && !site.branch.groups.isEmpty &&
    !Group.anyBuildable site.branch.groups && !site.options.files.any (·.isCompiled)

theorem anyBuildable_eq_trimAll (groups : List Group) :
    (!(Group.trimAll .passedGroups groups).isEmpty) = Group.anyBuildable groups := by
  induction groups with
  | nil => rfl
  | cons group rest induction =>
      have kept : Trim.passedGroups.keepsGroup group = group.isBuildable := rfl
      rw [Group.trimAll, Group.anyBuildable, kept, ← induction]
      cases group.isBuildable <;> rfl

variable (setting : Setting) (context : Context)

theorem directives_of_saysOptions {plan : Plan} {hasGroups : Bool}
    (same : Plan.saysOptions { plan with hasGroups } = plan.saysOptions) :
    Plan.directives { plan with hasGroups } = plan.directives := by
  unfold Plan.directives
  rw [same]
  rfl

theorem directives_without_options {plan : Plan} {hasGroups : Bool}
    (silent : Plan.saysOptions { plan with hasGroups } = false) :
    Plan.directives { plan with hasGroups } =
      plan.directives.filter (!·.isOptionsOf plan.node.name) := by
  have bundle : (if plan.ownsBundle then
      [Directive.abstractionsBundle plan.node.name plan.abstractions plan.subtree]
      else []).filter (!·.isOptionsOf plan.node.name) =
        if plan.ownsBundle then
          [Directive.abstractionsBundle plan.node.name plan.abstractions plan.subtree]
        else [] := by
    split <;> rfl
  have links : (if plan.libraries = [] then []
      else [Directive.linkLibraries plan.node.name plan.scope plan.libraries]).filter
        (!·.isOptionsOf plan.node.name) =
          if plan.libraries = [] then []
          else [Directive.linkLibraries plan.node.name plan.scope plan.libraries] := by
    split <;> rfl
  have options : (if plan.saysOptions then
      [Directive.compileOptions plan.node.name plan.scope (some plan.parent.target)
        plan.node.options.misc plan.files.preIncludeLocal]
      else []).filter (!·.isOptionsOf plan.node.name) = [] := by
    split
    · simp [Directive.isOptionsOf]
    · rfl
  unfold Plan.directives
  simp only [List.filter_append, bundle, links, options, silent]
  rfl

theorem isOptionsOf_customUnit (plan : Plan) (file : File) :
    ∀ directive ∈ (customUnit setting plan file).directives,
      directive.isOptionsOf plan.node.name = false := by
  have options : Directive.isOptionsOf plan.node.name
      (.compileOptions (unitName plan.node.name file.path) .shared (some plan.node.name) {} []) =
        false :=
    decide_eq_false (unitName_ne plan.node.name file.path)
  unfold customUnit
  dsimp only
  simp only [List.forall_mem_append]
  refine ⟨⟨⟨?_, ?_⟩, ?_⟩, ?_⟩
  · intro directive said
    simp only [List.mem_cons, List.not_mem_nil, or_false] at said
    rcases said with rfl | rfl | rfl | rfl <;> rfl
  · intro directive said
    split at said
    · cases said
    · cases List.mem_singleton.mp said
      rfl
  · intro directive said
    cases List.mem_singleton.mp said
    exact options
  · intro directive said
    split at said
    · cases said
    · rcases List.mem_map.mp said with ⟨bundle, _, rfl⟩
      rfl

theorem isOptionsOf_buildFile (plan : Plan) (file : File) :
    (buildFile setting plan file).directives.filter (!·.isOptionsOf plan.node.name) =
      (buildFile setting plan file).directives := by
  apply List.filter_eq_self.mpr
  intro directive said
  rw [Bool.not_eq_true']
  unfold buildFile at said
  rw [Emission.directives_append] at said
  rcases List.mem_append.mp said with unit | properties
  · split at unit
    · exact isOptionsOf_customUnit setting plan file directive unit
    · cases unit
  · split at properties
    · cases properties
    · cases List.mem_singleton.mp properties
      rfl

/-! ## Site by site -/

theorem saysOptions_passed (site : Site) :
    Plan.saysOptions { site.plan setting context with
      hasGroups := Group.anyBuildable site.branch.groups } =
        ((site.plan setting context).saysOptions && !site.isIdle) := by
  have compiles : (!(site.plan setting context).files.source.isEmpty ||
      !(site.plan setting context).files.custom.isEmpty) =
        site.options.files.any (·.isCompiled) :=
    Classification.compiles_ofFiles setting.root site.options.files
  have some (built : Group.anyBuildable site.branch.groups = true) :
      site.branch.groups.isEmpty = false := by
    cases groups : site.branch.groups with
    | nil => rw [groups] at built; cases built
    | cons group rest => rfl
  have groups : (site.plan setting context).hasGroups = !site.branch.groups.isEmpty := rfl
  unfold Plan.saysOptions Site.isIdle
  dsimp only
  rw [compiles, groups, Site.plan_node]
  cases built : Group.anyBuildable site.branch.groups with
  | true =>
      rw [some built]
      simp
  | false =>
      cases site.options.files.any (·.isCompiled) with
      | true => simp
      | false =>
          cases site.branch.groups.isEmpty <;>
            by_cases kind : site.node.kind = .group <;> simp [kind]

/-- Without the groups that are passed over, what is said about a site is the same, but that
the compile options of an idle group are missing. -/
theorem directives_passed (site : Site) :
    (site.trim .passedGroups).directives setting (context.trim .passedGroups) =
      (site.directives setting context).filter fun directive =>
        !(site.isIdle && directive.isOptionsOf site.target) := by
  have spared : ∀ branch ∈ site.branch :: site.around, Trim.passedGroups.Spares branch.node := by
    intro branch _
    exact congrArg hasFileAbstractions (List.filter_true _)
  have options := saysOptions_passed setting context site
  rw [directives_trim .passedGroups context setting spared, anyBuildable_eq_trimAll,
    Site.directives_eq]
  cases idle : site.isIdle with
  | true =>
      rw [idle, Bool.not_true, Bool.and_false] at options
      have files : ∀ file, ((buildFile setting (site.plan setting context) file).directives.filter
          fun directive => !directive.isOptionsOf site.target) =
            (buildFile setting (site.plan setting context) file).directives :=
        isOptionsOf_buildFile setting (site.plan setting context)
      rw [directives_without_options options]
      simp only [List.filter_append, List.filter_flatMap, Bool.true_and, files]
      rfl
  | false =>
      rw [idle, Bool.not_false, Bool.and_true] at options
      rw [directives_of_saysOptions options]
      simp

theorem idle_says_options {site : Site} (idle : site.isIdle = true) :
    ∃ directive ∈ site.directives setting context, directive.isOptionsOf site.target = true := by
  unfold Site.isIdle at idle
  simp only [Bool.and_eq_true] at idle
  have told : (site.plan setting context).saysOptions = true := by
    have groups : (site.plan setting context).hasGroups = !site.branch.groups.isEmpty := rfl
    unfold Plan.saysOptions
    rw [groups, Site.plan_node, idle.1.1.1, idle.1.1.2]
    exact Bool.or_true _
  have options : Directive.isOptionsOf site.target
      (.compileOptions site.target (site.plan setting context).scope
        (some (site.plan setting context).parent.target) site.options.misc
        (site.plan setting context).files.preIncludeLocal) = true :=
    decide_eq_true rfl
  rw [Site.directives_eq]
  refine ⟨_, List.mem_append_left _ (List.mem_append_left _ ?_), options⟩
  unfold Plan.directives
  dsimp only
  rw [told, if_pos rfl]
  exact List.mem_append_left _ (List.mem_append_right _ List.mem_cons_self)

/-! ## All of a context -/

theorem components_passed :
    (Tree.build setting (context.trim .passedGroups)).components =
      (Tree.build setting context).components := by
  rw [components_build, components_build, componentSites_trim, List.flatMap_map]
  apply List.flatMap_congr
  intro site member
  rcases List.mem_map.mp member with ⟨component, _, rfl⟩
  rw [directives_passed]
  exact List.filter_true _

theorem groups_passed :
    (Tree.build setting (context.trim .passedGroups)).groups =
      context.groupSites.flatMap fun site => (site.directives setting context).filter
        fun directive => !(site.isIdle && directive.isOptionsOf site.target) := by
  rw [groups_build, groupSites_trim, List.flatMap_map]
  apply List.flatMap_congr
  intro site _
  exact directives_passed setting context site

theorem session_passed :
    (Tree.build setting (context.trim .passedGroups)).session.apart =
      (Tree.build setting context).session.apart := by
  have unheard : Trim.passedGroups.Unheard fun finding => !finding.isPreInclude :=
    fun _ _ _ => rfl
  have same := congrArg Emission.findings (heard_walk_trim context setting unheard)
  unfold Emission.heard at same
  rw [session_build, session_build, Session.apart_noteAll, Session.apart_noteAll]
  exact congrArg _ same

theorem groups_passed_iff :
    (Tree.build setting (context.trim .passedGroups)).groups = (Tree.build setting context).groups ↔
      ∀ site ∈ context.groupSites, site.isIdle = false := by
  rw [groups_passed, groups_build]
  constructor
  · intro same site member
    have kept := kept_of_flatMap_filter same site member
    apply Bool.eq_false_iff.mpr
    intro idle
    rcases idle_says_options setting context idle with ⟨directive, said, options⟩
    have stays := kept directive said
    rw [idle, options] at stays
    cases stays
  · intro busy
    apply List.flatMap_congr
    intro site member
    rw [busy site member]
    exact List.filter_true _

end Target

/-- Without the groups that are passed over a context finds out the same but for global
pre-includes, and is described by the same statements but for the compile options of groups
that are left idle. -/
theorem passed_groups_leave_options (setting : Setting) (context : Context) :
    let pruned := context.trim .passedGroups
    let tree := Tree.build setting context
    let other := Tree.build setting pruned
    { other.session with preIncludeGlobal := [] } = { tree.session with preIncludeGlobal := [] } ∧
      other.warnings = tree.warnings ∧
      other.components = tree.components ∧
      other.groups = (context.groupSites.flatMap fun site =>
        (site.directives setting context).filter fun directive =>
          !(site.isIdle && directive.isOptionsOf site.target)) ∧
      (other.groups = tree.groups ↔ ∀ site ∈ context.groupSites, site.isIdle = false) := by
  intro pruned tree other
  exact ⟨session_passed setting context, warnings_trim .passedGroups context setting,
    components_passed setting context, groups_passed setting context,
    groups_passed_iff setting context⟩

/-- A group of headers with a group of documents below it. -/
private def documentedHeaders : Context where
  groups :=
    [{ name := "Outer"
       options := { files := [{ path := "./inc/outer.h", category := "header" }] }
       groups :=
         [{ name := "Docs"
            options := { files := [{ path := "./README.md", category := "doc" }] } }] }]

private def documentedSetting : Setting where
  root := "project"
  toolchain := "GCC"

/-- A group in which nothing is built makes the group around it say compile options. -/
theorem passed_group_leaves_options :
    ¬ ∀ (setting : Setting) (context : Context),
      (Tree.build setting (context.trim .passedGroups)).groups =
        (Tree.build setting context).groups := by
  intro traceless
  have idle : ∃ site ∈ documentedHeaders.groupSites, site.isIdle = true := by decide +kernel
  rcases idle with ⟨site, member, isIdle⟩
  have same := traceless documentedSetting documentedHeaders
  have busy := (groups_passed_iff documentedSetting documentedHeaders).mp same site member
  rw [isIdle] at busy
  cases busy

end SolutionLists
