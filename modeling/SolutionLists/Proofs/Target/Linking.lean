import SolutionLists.Proofs.Target.Distinct

namespace SolutionLists

/-! What targets link. The statements are read as they stand; with distinct names all
that a target links is said at the one site that the target belongs to. -/

namespace Directive

/-- The libraries that a statement has a target link. -/
def linkedBy (target : String) : Directive → List String
  | linkLibraries linking _ libraries => if linking = target then libraries else []
  | _ => []

def allLinkedBy (directives : List Directive) (target : String) : List String :=
  directives.flatMap (linkedBy target)

theorem allLinkedBy_append (first second : List Directive) (target : String) :
    allLinkedBy (first ++ second) target =
      allLinkedBy first target ++ allLinkedBy second target :=
  List.flatMap_append

theorem allLinkedBy_flatMap {α : Type} (values : List α) (statements : α → List Directive)
    (target : String) :
    allLinkedBy (values.flatMap statements) target =
      values.flatMap fun value => allLinkedBy (statements value) target :=
  List.flatMap_assoc

end Directive

open Directive (allLinkedBy allLinkedBy_append allLinkedBy_flatMap)

/-- Where no key belongs to two items, only the item that a key belongs to answers to
the key. -/
theorem flatMap_eq_of_key {α β : Type} {items : List α} {keys : α → List String}
    {answer : α → List β} {key : String} (distinct : (items.flatMap keys).Nodup)
    (silent : ∀ other ∈ items, key ∉ keys other → answer other = []) {item : α}
    (member : item ∈ items) (has : key ∈ keys item) : items.flatMap answer = answer item := by
  induction items with
  | nil => cases member
  | cons head tail induction =>
      rw [List.flatMap_cons] at distinct ⊢
      have parts := List.nodup_append.mp distinct
      have tailSilent : ∀ other ∈ tail, key ∉ keys other → answer other = [] :=
        fun other later => silent other (List.mem_cons_of_mem _ later)
      rcases List.mem_cons.mp member with here | later
      · subst here
        have others : tail.flatMap answer = [] := by
          refine List.flatMap_eq_nil_iff.mpr fun other otherMember => ?_
          refine tailSilent other otherMember fun again => ?_
          exact parts.2.2 key has key (List.mem_flatMap.mpr ⟨other, otherMember, again⟩) rfl
        rw [others, List.append_nil]
      · have headSilent : answer head = [] := by
          refine silent head List.mem_cons_self fun again => ?_
          exact parts.2.2 key again key (List.mem_flatMap.mpr ⟨item, later, has⟩) rfl
        rw [headSilent, List.nil_append]
        exact induction parts.2.1 tailSilent later

namespace Target

variable {setting : Setting} {context : Context}

/-! ## One site -/

theorem allLinkedBy_plan (plan : Plan) (target : String) :
    allLinkedBy plan.directives target =
      if plan.node.name = target then plan.libraries else [] := by
  unfold Plan.directives
  by_cases none : plan.libraries = []
  · simp [allLinkedBy, Directive.linkedBy, none, apply_ite (List.flatMap _)]
  · simp [allLinkedBy, Directive.linkedBy, none, apply_ite (List.flatMap _)]

def unitBundle (plan : Plan) (file : File) : List String :=
  if plan.abstractions.isEmptyFor file.language then [] else plan.bundle?.toList

theorem allLinkedBy_file (plan : Plan) (file : File) (target : String) :
    allLinkedBy (buildFile setting plan file).directives target =
      if file.hasCustomOptions = true ∧ unitName plan.node.name file.path = target then
        unitBundle plan file
      else [] := by
  unfold buildFile customUnit unitBundle
  by_cases custom : file.hasCustomOptions
  · by_cases named : unitName plan.node.name file.path = target
    · cases plan.bundle? <;>
        simp [allLinkedBy, Directive.linkedBy, custom, named, apply_ite (List.flatMap _)]
    · cases plan.bundle? <;>
        simp [allLinkedBy, Directive.linkedBy, custom, named, apply_ite (List.flatMap _)]
  · simp [allLinkedBy, Directive.linkedBy, custom, apply_ite (List.flatMap _)]

variable (setting context) in
theorem allLinkedBy_directives (site : Site) (target : String) :
    allLinkedBy (site.directives setting context) target =
      (if site.target = target then (site.plan setting context).libraries else []) ++
        site.sources.flatMap fun file =>
          if file.hasCustomOptions = true ∧ unitName site.target file.path = target then
            unitBundle (site.plan setting context) file
          else [] := by
  rw [Site.directives_eq, allLinkedBy_append, allLinkedBy_append, allLinkedBy_plan,
    allLinkedBy_flatMap]
  simp only [allLinkedBy_file]
  exact List.append_nil _

/-! ## All sites -/

theorem Site.nodup_targets (distinct : (Tree.build setting context).targets.Nodup)
    {site : Site} (member : site ∈ context.sites) : site.targets.Nodup := by
  rw [targets_build] at distinct
  exact (List.nodup_flatMap.mp (List.nodup_cons.mp distinct).2).1 site member

theorem allLinkedBy_elsewhere {site : Site} {target : String}
    (other : target ∉ site.targets) :
    allLinkedBy (site.directives setting context) target = [] := by
  unfold Site.targets Site.compiling at other
  simp only [List.mem_cons, List.mem_flatMap, not_or, not_exists, not_and] at other
  rw [allLinkedBy_directives, if_neg (Ne.symm other.1), List.nil_append]
  refine List.flatMap_eq_nil_iff.mpr fun file member => if_neg ?_
  rintro ⟨custom, named⟩
  have unit := other.2 file member
  rw [if_pos custom, if_pos custom] at unit
  exact unit (List.mem_singleton.mpr named.symm)

theorem allLinkedBy_build (distinct : (Tree.build setting context).targets.Nodup)
    {site : Site} (member : site ∈ context.sites) {target : String}
    (own : target ∈ site.targets) :
    allLinkedBy (Tree.build setting context).directives target =
      allLinkedBy (site.directives setting context) target := by
  rw [directives_build, allLinkedBy_flatMap]
  rw [targets_build] at distinct
  refine flatMap_eq_of_key (List.nodup_cons.mp distinct).2 (fun other _ absent => ?_) member own
  exact allLinkedBy_elsewhere absent

theorem allLinkedBy_target (distinct : (Tree.build setting context).targets.Nodup)
    {site : Site} (member : site ∈ context.sites) :
    allLinkedBy (Tree.build setting context).directives site.target =
      (site.plan setting context).libraries := by
  rw [allLinkedBy_build distinct member List.mem_cons_self, allLinkedBy_directives, if_pos rfl]
  have units : ∀ file ∈ site.sources, ¬ (file.hasCustomOptions = true ∧
      unitName site.target file.path = site.target) := by
    rintro file source ⟨custom, named⟩
    refine (List.nodup_cons.mp (Site.nodup_targets distinct member)).1 ?_
    refine List.mem_flatMap.mpr ⟨file, source, ?_⟩
    rw [if_pos custom, Site.compiling, if_pos custom]
    exact List.mem_singleton.mpr named.symm
  have silent : (site.sources.flatMap fun file =>
      if file.hasCustomOptions = true ∧ unitName site.target file.path = site.target then
        unitBundle (site.plan setting context) file
      else []) = [] :=
    List.flatMap_eq_nil_iff.mpr fun file source => if_neg (units file source)
  rw [silent, List.append_nil]

theorem allLinkedBy_unit (distinct : (Tree.build setting context).targets.Nodup)
    {site : Site} (member : site ∈ context.sites) {file : File}
    (source : file ∈ site.sources) (custom : file.hasCustomOptions = true) :
    allLinkedBy (Tree.build setting context).directives (site.compiling file) =
      unitBundle (site.plan setting context) file := by
  have compiling : site.compiling file = unitName site.target file.path := if_pos custom
  have own : site.compiling file ∈
      if file.hasCustomOptions then [site.compiling file] else [] := by
    rw [if_pos custom]
    exact List.mem_cons_self
  have listed : site.compiling file ∈ site.sources.flatMap fun file =>
      if file.hasCustomOptions then [site.compiling file] else [] :=
    List.mem_flatMap.mpr ⟨file, source, own⟩
  have parts := List.nodup_cons.mp (Site.nodup_targets distinct member)
  have apart : site.target ≠ site.compiling file := fun same => parts.1 (same ▸ listed)
  rw [allLinkedBy_build distinct member (List.mem_cons_of_mem _ listed),
    allLinkedBy_directives, if_neg apart, List.nil_append]
  refine (flatMap_eq_of_key parts.2 (fun other _ absent => if_neg ?_) source own).trans
    (if_pos ⟨custom, compiling.symm⟩)
  rintro ⟨otherCustom, named⟩
  rw [if_pos otherCustom, Site.compiling, if_pos otherCustom, named] at absent
  exact absent List.mem_cons_self

end Target

end SolutionLists
