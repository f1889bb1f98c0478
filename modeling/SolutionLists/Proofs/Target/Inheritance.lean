import SolutionLists.ContextPlan
import SolutionLists.Proofs.Target.Distinct
import SolutionLists.Proofs.Target.IncludeStatements

namespace SolutionLists

/-! Includes and definitions flow down in two ways: a target refers to its parent, or it
writes out what is left of the parent's set. What the walk carries along is in both
cases what the statements alone hand on. -/

/-- What is taken away from the settings around a node: directories and names. -/
structure Removal where
  delete : List String
  undefine : List String
deriving DecidableEq, Repr

def Removal.append (first second : Removal) : Removal where
  delete := first.delete ++ second.delete
  undefine := first.undefine ++ second.undefine

def NodeOptions.removal (options : NodeOptions) : Removal where
  delete := options.delPath
  undefine := options.undefine

def NodeOptions.remove (options : NodeOptions) (more : Removal) : NodeOptions :=
  { options with
    delPath := options.delPath ++ more.delete
    undefine := options.undefine ++ more.undefine }

namespace Target

def Node.remove (node : Node) (more : Removal) : Node :=
  { node with options := node.options.remove more }

/-! ## A setting that flows -/

/-- A setting with what the walk carries of it and what is said about it. -/
structure Passing (setting : Setting) (α : Type) where
  read? : Directive → Option (Flow α)
  once : OncePerTarget setting read? Flow.target
  /-- What a node takes over from around it. -/
  held : Inherited → Set α
  /-- What is said about a node. -/
  flow : Plan → Flow α
  read_node : ∀ plan : Plan, flow plan ∈ plan.directives.filterMap read?
  flow_target : ∀ plan : Plan, (flow plan).target = plan.node.name
  removed : Removal → Set α
  removed_append : ∀ first second : Removal,
    removed (first.append second) = removed first ∪ removed second
  /-- Whether the removal leaves this setting alone. -/
  spares : Removal → Bool
  removed_spares : ∀ removal : Removal, spares removal = true → removed removal = ∅
  flow_parent : ∀ (parent : Inherited) (node : Node) (groups : List Group),
    (flow (Plan.make setting parent node groups)).parent =
      if spares node.options.removal then .inherited parent.target
      else .resolved (held parent \ removed node.options.removal)
  held_inherited : ∀ (parent : Inherited) (node : Node) (groups : List Group),
    held (Plan.make setting parent node groups).inherited =
      (flow (Plan.make setting parent node groups)).parent.value (held parent) ∪
        (flow (Plan.make setting parent node groups)).own
  /-- What a node adds does not hang on what it takes over or on the groups below it. -/
  own_make : ∀ (parent other : Inherited) (node : Node) (groups others : List Group),
    (flow (Plan.make setting other node others)).own =
      (flow (Plan.make setting parent node groups)).own
  /-- Nor does it hang on what the node takes away. -/
  own_remove : ∀ (parent : Inherited) (node : Node) (groups : List Group) (more : Removal),
    (flow (Plan.make setting parent (node.remove more) groups)).own =
      (flow (Plan.make setting parent node groups)).own

namespace Passing

variable {setting : Setting} {α : Type} (passing : Passing setting α) (context : Context)

def flows : List (Flow α) :=
  (Tree.build setting context).directives.filterMap passing.read?

/-- What the users of a target get by all that is said. -/
def reaching (target : String) : Set α :=
  Flow.handedOn (passing.flows context) (passing.held (inheritedFrom setting context)) target

variable {context} {site : Site}

theorem flow_mem (member : site ∈ context.sites) :
    passing.flow (site.plan setting context) ∈ passing.flows context := by
  unfold flows
  rw [directives_build, List.filterMap_flatMap]
  refine List.mem_flatMap.mpr ⟨site, member, ?_⟩
  rw [filterMap_directives setting context _ site passing.once.silent]
  exact List.mem_append_left _ (passing.read_node _)

variable (distinct : (Tree.build setting context).targets.Nodup)
include distinct

theorem flows_nodup : (Target.context :: (passing.flows context).map Flow.target).Nodup :=
  passing.once.nodup context distinct

theorem reaching_context :
    passing.reaching context Target.context = passing.held (inheritedFrom setting context) :=
  Flow.handedOn_context (passing.flows_nodup distinct)

theorem reaching_step (member : site ∈ context.sites)
    (atParent : passing.reaching context site.parent =
      passing.held (inheritedWithin setting context site.around)) :
    passing.reaching context site.target =
      passing.held (site.plan setting context).inherited := by
  have said := passing.flow_mem member
  have evaluated : passing.reaching context _ = _ :=
    Flow.handedOn_target (passing.flows_nodup distinct) said
  rw [passing.flow_target] at evaluated
  refine evaluated.trans ?_
  rw [Site.plan, passing.held_inherited, passing.flow_parent]
  congr 1
  by_cases spared : passing.spares site.node.options.removal
  · rw [if_pos spared, ParentPart.value, ← atParent,
      ← Site.plan_parent_target setting context site]
    rfl
  · rw [if_neg spared, ParentPart.value]

theorem reaching_parent (member : site ∈ context.sites) :
    passing.reaching context site.parent =
      passing.held (inheritedWithin setting context site.around) := by
  rcases site with ⟨branch, around⟩
  -- From the context inwards: each group around is a site itself, with what its own parent
  -- hands on known.
  induction around generalizing branch with
  | nil => exact passing.reaching_context distinct
  | cons outer rest induction =>
      have outerMember := Context.mem_sites_of_around member rfl
      exact passing.reaching_step distinct outerMember (induction outer outerMember)

theorem reaching_target (member : site ∈ context.sites) :
    passing.reaching context site.target =
      passing.held (site.plan setting context).inherited :=
  passing.reaching_step distinct member (passing.reaching_parent distinct member)

theorem flows_about (member : site ∈ context.sites) :
    (passing.flows context).filter (fun flow => flow.target = site.target) =
      [passing.flow (site.plan setting context)] := by
  have targets := (List.nodup_cons.mp (passing.flows_nodup distinct)).2
  have named : site.target = (passing.flow (site.plan setting context)).target :=
    (passing.flow_target (site.plan setting context)).symm
  rw [named]
  exact filter_key_eq_singleton targets (passing.flow_mem member)

/-- A target refers to its parent, or writes out what the parent hands on less what is
taken away. -/
theorem flow_parent_site (member : site ∈ context.sites) :
    (passing.flow (site.plan setting context)).parent =
      if passing.spares site.options.removal then .inherited site.parent
      else .resolved
        (passing.reaching context site.parent \ passing.removed site.options.removal) := by
  rw [passing.reaching_parent distinct member, ← Site.plan_parent_target setting context site]
  exact passing.flow_parent _ _ _

end Passing

/-! ## Include directories -/

theorem filterMap_includeFlow (directives : List Directive) :
    directives.filterMap Directive.includeFlow? =
      (directives.filter (·.isIncludes)).filterMap Directive.includeFlow? := by
  rw [List.filterMap_filter]
  refine List.filterMap_congr fun directive _ => ?_
  cases directive <;> rfl

theorem includeFlow_node (plan : Plan) :
    plan.directives.filterMap Directive.includeFlow? =
      [⟨plan.node.name, plan.includes.parent.map LanguageMap.pairs,
        plan.includes.own.shownPairs⟩] := by
  rw [filterMap_includeFlow, includes_node]
  rfl

theorem includeFlow_once (setting : Setting) :
    OncePerTarget setting Directive.includeFlow? Flow.target where
  silent := rfl
  ofNode plan := by simp [includeFlow_node]
  ofFile plan file := by
    rw [filterMap_includeFlow, includes_file]
    split <;> exact List.Sublist.refl _

def includePassing (setting : Setting) : Passing setting (Language × String) where
  read? := Directive.includeFlow?
  once := includeFlow_once setting
  held inherited := inherited.includes.pairs
  flow plan :=
    { target := plan.node.name
      parent := plan.includes.parent.map LanguageMap.pairs
      own := plan.includes.own.shownPairs }
  read_node plan := by simp [includeFlow_node]
  flow_target _ := rfl
  removed removal := {pair | pair.2 ∈ Path.anchorAll setting.root removal.delete}
  removed_append first second := by
    ext pair
    simp [Removal.append, Path.anchorAll]
  spares removal := removal.delete.isEmpty
  removed_spares removal spared := by
    rw [List.isEmpty_iff.mp spared]
    ext pair
    simp [Path.anchorAll]
  flow_parent parent node groups := by
    simp only [Plan.make, mergeIncludes, parentIncludes, NodeOptions.removal]
    by_cases none : node.options.delPath = []
    · simp [none, Path.anchorAll, ParentPart.map]
    · have some : Path.anchorAll setting.root node.options.delPath ≠ [] := by
        simpa [Path.anchorAll] using none
      simp only [none, some, ParentPart.map, if_false, List.isEmpty_iff,
        LanguageMap.pairs_without]
      rfl
  held_inherited parent node groups := by
    rw [ParentPart.value_map]
    exact LanguageMap.pairs_appendPropagating _ _
  own_make _ _ _ _ _ := rfl
  own_remove _ _ _ _ := rfl

/-! ## Definitions -/

theorem defineFlow_node (plan : Plan) :
    plan.directives.filterMap Directive.defineFlow? =
      [⟨plan.node.name, plan.defines.parent.map fun list => {define | define ∈ list},
        {define | define ∈ plan.defines.own}⟩] := by
  simp [Plan.directives, Directive.defineFlow?, List.filterMap_cons,
    apply_ite (List.filterMap Directive.defineFlow?)]

theorem defineFlow_once (setting : Setting) :
    OncePerTarget setting Directive.defineFlow? Flow.target where
  silent := rfl
  ofNode plan := by simp [defineFlow_node]
  ofFile plan file := by
    by_cases custom : file.hasCustomOptions
    · by_cases assembly : file.language = .asm
      · simp [buildFile, customUnit, custom, assembly, Directive.defineFlow?,
          List.filterMap_cons, List.filterMap_map, Function.comp_def,
          apply_ite (List.filterMap Directive.defineFlow?)]
      · simp [buildFile, customUnit, custom, assembly, Directive.defineFlow?,
          List.filterMap_cons, List.filterMap_map, Function.comp_def,
          apply_ite (List.filterMap Directive.defineFlow?)]
    · simp [buildFile, custom, Directive.defineFlow?, List.filterMap_cons,
        apply_ite (List.filterMap Directive.defineFlow?)]

def definePassing (setting : Setting) : Passing setting Define where
  read? := Directive.defineFlow?
  once := defineFlow_once setting
  held inherited := {define | define ∈ inherited.defines}
  flow plan :=
    { target := plan.node.name
      parent := plan.defines.parent.map fun list => {define | define ∈ list}
      own := {define | define ∈ plan.defines.own} }
  read_node plan := by simp [defineFlow_node]
  flow_target _ := rfl
  removed removal := {define | define.name ∈ removal.undefine}
  removed_append first second := by
    ext define
    simp [Removal.append]
  spares removal := removal.undefine.isEmpty
  removed_spares removal spared := by
    rw [List.isEmpty_iff.mp spared]
    ext define
    simp
  flow_parent parent node groups := by
    simp only [Plan.make, mergeDefines, parentDefines, NodeOptions.removal]
    by_cases none : node.options.undefine = []
    · simp [none, ParentPart.map]
    · simp only [none, ParentPart.map, if_false, List.isEmpty_iff]
      refine congrArg ParentPart.resolved ?_
      ext define
      simp [Define.remove]
  held_inherited parent node groups := by
    rw [ParentPart.value_map fun list : List Define => {define | define ∈ list}]
    ext define
    exact Ordered.mem_append
  own_make _ _ _ _ _ := rfl
  own_remove _ _ _ _ := rfl

end Target

namespace ContextPlan

/-! ## What the statements of a context hand on -/

def includeFlows (plan : ContextPlan) : List (Flow (Language × String)) :=
  plan.tree.directives.filterMap Directive.includeFlow?

def defineFlows (plan : ContextPlan) : List (Flow Define) :=
  plan.tree.directives.filterMap Directive.defineFlow?

def handedOnIncludes (plan : ContextPlan) (target : String) : Set (Language × String) :=
  Flow.handedOn plan.includeFlows plan.includes.pairs target

def handedOnDefines (plan : ContextPlan) (target : String) : Set Define :=
  Flow.handedOn plan.defineFlows {define | define ∈ plan.context.define} target

end ContextPlan

end SolutionLists
