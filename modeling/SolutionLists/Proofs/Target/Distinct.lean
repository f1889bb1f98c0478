import Mathlib.Data.List.Flatten
import SolutionLists.Proofs.Target.Flow
import SolutionLists.Proofs.Target.Site

namespace SolutionLists.Target

/-! Where no two targets share a name, each target has at most one statement of each
kind: its include directories, its definitions, its bundle, its libraries. -/

namespace Site

def compiling (site : Site) (file : File) : String :=
  if file.hasCustomOptions then unitName site.target file.path else site.target

/-- The target of a site, then those of sources that have a unit of their own. -/
def targets (site : Site) : List String :=
  site.target :: site.sources.flatMap fun file =>
    if file.hasCustomOptions then [site.compiling file] else []

end Site

/-- The names of all targets: that of the context and those of its units. -/
def Tree.targets (tree : Tree) : List String :=
  Target.context :: tree.directives.filterMap Directive.definedTarget?

theorem filter_key_eq_singleton {β : Type} {key : β → String} {items : List β}
    (distinct : (items.map key).Nodup) {item : β} (member : item ∈ items) :
    items.filter (fun other => key other = key item) = [item] := by
  induction items with
  | nil => cases member
  | cons head tail induction =>
      have parts := List.nodup_cons.mp distinct
      rcases List.mem_cons.mp member with here | later
      · subst here
        have others : tail.filter (fun other => key other = key item) = [] := by
          refine List.filter_eq_nil_iff.mpr fun other otherMember same => ?_
          exact parts.1 (of_decide_eq_true same ▸ List.mem_map_of_mem otherMember)
        rw [List.filter_cons_of_pos (by simp), others]
      · have different : key head ≠ key item := fun same =>
          parts.1 (same ▸ List.mem_map_of_mem later)
        rw [List.filter_cons_of_neg (by simpa using different)]
        exact induction parts.2 later

variable (setting : Setting) (context : Context)

/-! ## Statements of one kind -/

section Kind

variable {β : Type} (read? : Directive → Option β)

theorem filterMap_directives (site : Site) (silent : read? .blank = none) :
    (site.directives setting context).filterMap read? =
      (site.plan setting context).directives.filterMap read? ++
        site.sources.flatMap fun file =>
          (buildFile setting (site.plan setting context) file).directives.filterMap read? := by
  rw [Site.directives_eq]
  simp only [List.filterMap_append, List.filterMap_cons, List.filterMap_nil, silent,
    List.append_nil, List.filterMap_flatMap]

/-- Statements of a kind that is said at most once about a target, with that target. -/
structure OncePerTarget (key : β → String) : Prop where
  silent : read? .blank = none
  ofNode : ∀ plan : Plan,
    ((plan.directives.filterMap read?).map key).Sublist [plan.node.name]
  ofFile : ∀ (plan : Plan) (file : File),
    (((buildFile setting plan file).directives.filterMap read?).map key).Sublist
      (if file.hasCustomOptions then [unitName plan.node.name file.path] else [])

end Kind

variable {setting} {β : Type} {read? : Directive → Option β} {key : β → String}

theorem OncePerTarget.sublist_targets (once : OncePerTarget setting read? key) (site : Site) :
    (((site.directives setting context).filterMap read?).map key).Sublist site.targets := by
  rw [filterMap_directives setting context read? site once.silent, List.map_append,
    List.map_flatMap]
  refine (once.ofNode (site.plan setting context)).append ?_
  refine List.Sublist.flatMap_right site.sources fun file _ => ?_
  have unit := once.ofFile (site.plan setting context) file
  by_cases custom : file.hasCustomOptions
  · simp only [Site.compiling, custom, if_true] at unit ⊢
    exact unit
  · simp only [custom, Bool.false_eq_true, if_false] at unit ⊢
    exact unit

variable (setting) in
theorem definedTargets_node (plan : Plan) :
    plan.directives.filterMap Directive.definedTarget? = [plan.node.name] := by
  simp [Plan.directives, Directive.definedTarget?, List.filterMap_cons,
    apply_ite (List.filterMap Directive.definedTarget?)]

variable (setting) in
theorem definedTargets_file (plan : Plan) (file : File) :
    (buildFile setting plan file).directives.filterMap Directive.definedTarget? =
      if file.hasCustomOptions then [unitName plan.node.name file.path] else [] := by
  simp [buildFile, customUnit, Directive.definedTarget?, List.filterMap_cons, List.filterMap_map,
    Function.comp_def, apply_ite (List.filterMap Directive.definedTarget?),
    apply_ite Emission.directives]

variable (setting) in
theorem targets_directives (site : Site) :
    (site.directives setting context).filterMap Directive.definedTarget? = site.targets := by
  rw [filterMap_directives setting context _ site rfl, definedTargets_node]
  simp only [definedTargets_file]
  refine congrArg (site.target :: ·) (List.flatMap_congr fun file _ => ?_)
  by_cases custom : file.hasCustomOptions
  · simp only [Site.compiling, custom, if_true]
    rfl
  · simp only [custom, Bool.false_eq_true, if_false]

theorem targets_build :
    (Tree.build setting context).targets =
      Target.context :: context.sites.flatMap Site.targets := by
  rw [Tree.targets, directives_build, List.filterMap_flatMap]
  simp only [targets_directives]

/-- Statements of such a kind have different targets where the targets have different
names, and none of them is about the context. -/
theorem OncePerTarget.nodup (once : OncePerTarget setting read? key)
    (distinct : (Tree.build setting context).targets.Nodup) :
    (Target.context ::
      ((Tree.build setting context).directives.filterMap read?).map key).Nodup := by
  rw [targets_build] at distinct
  refine distinct.sublist (List.Sublist.cons_cons _ ?_)
  rw [directives_build, List.filterMap_flatMap, List.map_flatMap]
  exact List.Sublist.flatMap_right context.sites fun site _ =>
    once.sublist_targets context site

end SolutionLists.Target
