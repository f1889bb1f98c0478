import SolutionLists.Proofs.Languages
import SolutionLists.Proofs.Target.Sources

namespace SolutionLists

/-! Descriptions from which files and groups are left out that nothing is built from. What
the walk looks for ahead, what it visits and what it finds out stays the same. -/

open Target

/-- Which files and groups stay. Templates alone may be left out of the files, and of the
groups those alone in which nothing is left to build. -/
structure Trim where
  keepsFile : File → Bool
  keepsGroup : Group → Bool
  keepsFile_of_built : ∀ {file : File}, file.isTemplate = false → keepsFile file = true
  keepsGroup_of_built : ∀ {group : Group}, group.isBuildable = true → keepsGroup group = true

namespace Trim

def templates : Trim where
  keepsFile file := !file.isTemplate
  keepsGroup _ := true
  keepsFile_of_built real := by rw [real]; rfl
  keepsGroup_of_built _ := rfl

/-- All groups are left out in which nothing is left to build. -/
def passedGroups : Trim where
  keepsFile _ := true
  keepsGroup group := group.isBuildable
  keepsFile_of_built _ := rfl
  keepsGroup_of_built built := built

def files (trim : Trim) (files : List File) : List File :=
  files.filter trim.keepsFile

end Trim

def NodeOptions.trim (trim : Trim) (options : NodeOptions) : NodeOptions :=
  { options with files := trim.files options.files }

mutual

def Group.trim (trim : Trim) : Group → Group
  | ⟨name, options, groups⟩ => ⟨name, options.trim trim, Group.trimAll trim groups⟩

def Group.trimAll (trim : Trim) : List Group → List Group
  | [] => []
  | group :: rest =>
      if trim.keepsGroup group then group.trim trim :: Group.trimAll trim rest
      else Group.trimAll trim rest

end

def Component.trim (trim : Trim) (component : Component) : Component :=
  { component with options := component.options.trim trim }

def Context.trim (trim : Trim) (context : Context) : Context :=
  { context with
    groups := Group.trimAll trim context.groups
    components := context.components.map (Component.trim trim)
    constructedFiles := trim.files context.constructedFiles }

namespace Target

def Node.trim (trim : Trim) (node : Node) : Node :=
  { node with options := node.options.trim trim }

def Branch.trim (trim : Trim) (branch : Branch) : Branch where
  node := branch.node.trim trim
  groups := Group.trimAll trim branch.groups

def Site.trim (trim : Trim) (site : Site) : Site where
  branch := site.branch.trim trim
  around := site.around.map (Branch.trim trim)

end Target

/-- No file that is left out decides whether sources of the node have abstractions of their
own. -/
def Trim.Spares (trim : Trim) (node : Node) : Prop :=
  hasFileAbstractions (trim.files node.options.files) = hasFileAbstractions node.options.files

/-! ## File lists -/

namespace Trim

variable (trim : Trim)

theorem isTemplate_of_left {file : File} (left : trim.keepsFile file = false) :
    file.isTemplate = true := by
  cases template : file.isTemplate with
  | true => rfl
  | false => rw [trim.keepsFile_of_built template] at left; cases left

theorem isBuildable_of_left {group : Group} (left : trim.keepsGroup group = false) :
    group.isBuildable = false := by
  cases built : group.isBuildable with
  | false => rfl
  | true => rw [trim.keepsGroup_of_built built] at left; cases left

theorem filterMap_files {β : Type} {read? : File → Option β}
    (silent : ∀ file, file.isTemplate = true → read? file = none) (files : List File) :
    (trim.files files).filterMap read? = files.filterMap read? := by
  rw [Trim.files, List.filterMap_filter]
  apply List.filterMap_congr
  intro file _
  cases kept : trim.keepsFile file with
  | true => rfl
  | false => exact (silent file (trim.isTemplate_of_left kept)).symm

theorem filter_files {chosen : File → Bool}
    (real : ∀ file, file.isTemplate = true → chosen file = false) (files : List File) :
    (trim.files files).filter chosen = files.filter chosen := by
  rw [← List.filterMap_eq_filter]
  apply trim.filterMap_files
  intro file template
  rw [Option.guard, if_neg]
  simp [real file template]

theorem any_files {chosen : File → Bool}
    (real : ∀ file, file.isTemplate = true → chosen file = false) (files : List File) :
    (trim.files files).any chosen = files.any chosen := by
  have listed : ∀ files : List File, files.any chosen = !(files.filter chosen).isEmpty := by
    intro files
    rw [Bool.eq_iff_iff]
    simp
  rw [listed, listed, trim.filter_files real]

theorem flatMap_files {β : Type} {parts : File → List β}
    (silent : ∀ file, file.isTemplate = true → parts file = []) (files : List File) :
    (trim.files files).flatMap parts = files.flatMap parts := by
  unfold Trim.files
  induction files with
  | nil => rfl
  | cons file rest induction =>
      cases kept : trim.keepsFile file with
      | true => rw [List.filter_cons_of_pos kept, List.flatMap_cons, induction, List.flatMap_cons]
      | false =>
          rw [List.filter_cons_of_neg (by simp [kept]), induction, List.flatMap_cons,
            silent file (trim.isTemplate_of_left kept), List.nil_append]

theorem foldl_files {β : Type} {step : β → File → β}
    (idle : ∀ file, file.isTemplate = true → ∀ state, step state file = state)
    (files : List File) (state : β) :
    (trim.files files).foldl step state = files.foldl step state := by
  unfold Trim.files
  induction files generalizing state with
  | nil => rfl
  | cons file rest induction =>
      cases kept : trim.keepsFile file with
      | true => rw [List.filter_cons_of_pos kept, List.foldl_cons, induction, List.foldl_cons]
      | false =>
          rw [List.filter_cons_of_neg (by simp [kept]), induction, List.foldl_cons,
            idle file (trim.isTemplate_of_left kept)]

theorem filter_real (chosen : File → Bool) (files : List File) :
    (trim.files files).filter (fun file => chosen file && !file.isTemplate) =
      files.filter fun file => chosen file && !file.isTemplate := by
  apply trim.filter_files
  intro file template
  rw [template, Bool.not_true, Bool.and_false]

end Trim

variable (trim : Trim)

theorem hasBuildableFiles_trim (files : List File) :
    hasBuildableFiles (trim.files files) = hasBuildableFiles files := by
  apply trim.any_files
  intro file template
  rw [File.isBuildable, template]
  rfl

theorem spoken_trim (files : List File) :
    (trim.files files).flatMap File.spoken = files.flatMap File.spoken := by
  apply trim.flatMap_files
  intro file template
  rw [File.spoken, template]
  simp

theorem sourceLanguages_trim (files : List File) :
    sourceLanguages (trim.files files) = sourceLanguages files := by
  rw [sourceLanguages_eq, sourceLanguages_eq, spoken_trim]

namespace Classification

variable (root : String)

theorem add_of_template {file : File} (template : file.isTemplate = true)
    (sorted : Classification) : add root sorted file = sorted :=
  if_pos template

theorem ofFiles_trim (files : List File) :
    ofFiles root (trim.files files) = ofFiles root files := by
  have plain : (trim.files files).any File.isPlainSource = files.any File.isPlainSource := by
    apply trim.any_files
    intro file template
    rw [File.isPlainSource, template]
    simp
  rw [ofFiles, ofFiles, plain]
  apply trim.foldl_files
  intro file template sorted
  exact add_of_template root template sorted

theorem findings_trim (files : List File) :
    findings root (trim.files files) = findings root files := by
  apply trim.filterMap_files
  intro file template
  exact if_pos template

end Classification

/-! ## Looking ahead -/

theorem Group.name_trim (group : Group) : (group.trim trim).name = group.name := by
  cases group
  rw [Group.trim]

mutual

theorem Group.isBuildable_trim : (group : Group) →
    (group.trim trim).isBuildable = group.isBuildable
  | ⟨name, options, groups⟩ => by
      rw [Group.trim, Group.isBuildable, Group.isBuildable, Group.anyBuildable_trim groups]
      exact congrArg (· || _) (hasBuildableFiles_trim trim options.files)

theorem Group.anyBuildable_trim : (groups : List Group) →
    Group.anyBuildable (Group.trimAll trim groups) = Group.anyBuildable groups
  | [] => rfl
  | group :: rest => by
      rw [Group.trimAll, Group.anyBuildable]
      cases kept : trim.keepsGroup group with
      | true =>
          rw [if_pos rfl, Group.anyBuildable, Group.isBuildable_trim group,
            Group.anyBuildable_trim rest]
      | false =>
          rw [if_neg Bool.false_ne_true, trim.isBuildable_of_left kept, Bool.false_or,
            Group.anyBuildable_trim rest]

end

theorem spoken_of_passed {group : Group} (passed : group.isBuildable = false) :
    group.files.flatMap File.spoken = [] := by
  rw [isBuildable_eq] at passed
  apply List.flatMap_eq_nil_iff.mpr
  intro file inside
  have nothing := List.any_eq_false.mp passed file inside
  unfold File.spoken
  apply if_neg
  intro speaks
  simp only [Bool.and_eq_true] at speaks
  apply nothing
  apply isBuildable_of_isBuiltSource
  rw [File.isBuiltSource, speaks.1.1, speaks.1.2]
  rfl

mutual

theorem Group.spoken_trim : (group : Group) →
    (group.trim trim).files.flatMap File.spoken = group.files.flatMap File.spoken
  | ⟨name, options, groups⟩ => by
      rw [Group.trim, Group.files, Group.files, List.flatMap_append, List.flatMap_append,
        Group.allSpoken_trim groups]
      exact congrArg (· ++ _) (SolutionLists.spoken_trim trim options.files)

theorem Group.allSpoken_trim : (groups : List Group) →
    (Group.allFiles (Group.trimAll trim groups)).flatMap File.spoken =
      (Group.allFiles groups).flatMap File.spoken
  | [] => rfl
  | group :: rest => by
      rw [Group.trimAll, Group.allFiles, List.flatMap_append]
      cases kept : trim.keepsGroup group with
      | true =>
          rw [if_pos rfl, Group.allFiles, List.flatMap_append, Group.spoken_trim group,
            Group.allSpoken_trim rest]
      | false =>
          rw [if_neg Bool.false_ne_true, spoken_of_passed (trim.isBuildable_of_left kept),
            List.nil_append, Group.allSpoken_trim rest]

end

theorem subtreeLanguages_trim (files : List File) (groups : List Group) :
    subtreeLanguages (trim.files files) (Group.trimAll trim groups) =
      subtreeLanguages files groups := by
  unfold subtreeLanguages
  rw [Group.addAllLanguages_eq, Group.addAllLanguages_eq, Group.allSpoken_trim,
    sourceLanguages_trim]

mutual

theorem Group.collectIncludes_trim (root : String) : (group : Group) →
    (group.trim trim).collectIncludes root = group.collectIncludes root
  | ⟨name, options, groups⟩ => by
      have files : (options.trim trim).files = trim.files options.files := rfl
      rw [Group.trim, Group.collectIncludes, Group.collectIncludes, files, hasBuildableFiles_trim,
        Group.anyBuildable_trim, Classification.ofFiles_trim,
        Group.collectAllIncludes_trim root groups]

theorem Group.collectAllIncludes_trim (root : String) : (groups : List Group) →
    Group.collectAllIncludes root (Group.trimAll trim groups) =
      Group.collectAllIncludes root groups
  | [] => rfl
  | group :: rest => by
      rw [Group.trimAll, Group.collectAllIncludes]
      cases kept : trim.keepsGroup group with
      | true =>
          rw [if_pos rfl, Group.collectAllIncludes, Group.collectIncludes_trim root group,
            Group.collectAllIncludes_trim root rest]
      | false =>
          have nothing : group.collectIncludes root = [] := by
            have passed := trim.isBuildable_of_left kept
            cases group
            rw [Group.isBuildable] at passed
            rw [Group.collectIncludes, if_neg (Bool.eq_false_iff.mp passed)]
          rw [if_neg Bool.false_ne_true, nothing, List.nil_append,
            Group.collectAllIncludes_trim root rest]

end

namespace Context

variable (context : Context)

theorem languages_trim : (context.trim trim).languages = context.languages := by
  unfold languages Context.trim
  dsimp only
  rw [Group.addAllLanguages_eq, Group.addAllLanguages_eq, Group.allSpoken_trim, List.foldl_map,
    sourceLanguages_trim]
  simp only [Component.trim, NodeOptions.trim, sourceLanguages_trim]

theorem interfaceIncludes_trim (root : String) :
    (context.trim trim).interfaceIncludes root = context.interfaceIncludes root := by
  unfold interfaceIncludes includes Context.trim
  simp only [Group.collectAllIncludes_trim, List.filter_map, List.map_map, Function.comp_def,
    Component.trim, NodeOptions.trim, hasBuildableFiles_trim, Classification.ofFiles_trim]

end Context

namespace Target

/-! ## The same sites -/

mutual

theorem sitesOfGroup_trim (around : List Branch) (name : String) : (group : Group) →
    sitesOfGroup (around.map (Branch.trim trim)) name (group.trim trim) =
      (sitesOfGroup around name group).map (Site.trim trim)
  | ⟨title, options, groups⟩ => by
      have files : (options.trim trim).files = trim.files options.files := rfl
      have below := sitesOfGroups_trim
        (⟨Node.ofGroup name ⟨title, options, groups⟩, groups⟩ :: around) (name ++ "_") groups
      rw [Group.trim, sitesOfGroup, sitesOfGroup, files, hasBuildableFiles_trim,
        Group.anyBuildable_trim]
      split
      case isTrue =>
        rw [List.map_cons, ← below]
        rfl
      case isFalse => rfl

theorem sitesOfGroups_trim (around : List Branch) (start : String) : (groups : List Group) →
    sitesOfGroups (around.map (Branch.trim trim)) start (Group.trimAll trim groups) =
      (sitesOfGroups around start groups).map (Site.trim trim)
  | [] => rfl
  | group :: rest => by
      rw [Group.trimAll, sitesOfGroups, List.map_append]
      cases kept : trim.keepsGroup group with
      | true =>
          rw [if_pos rfl, sitesOfGroups, Group.name_trim, sitesOfGroup_trim around _ group,
            sitesOfGroups_trim around start rest]
      | false =>
          have nothing : sitesOfGroup around (start ++ nameOf group.name) group = [] := by
            have passed := trim.isBuildable_of_left kept
            cases group
            rw [Group.isBuildable] at passed
            rw [sitesOfGroup, if_neg (Bool.eq_false_iff.mp passed)]
          rw [if_neg Bool.false_ne_true, nothing, List.map_nil, List.nil_append,
            sitesOfGroups_trim around start rest]

end

variable (context : Context)

theorem groupSites_trim :
    (context.trim trim).groupSites = context.groupSites.map (Site.trim trim) :=
  sitesOfGroups_trim trim [] "Group_" context.groups

theorem componentSites_trim :
    (context.trim trim).componentSites = context.componentSites.map (Site.trim trim) := by
  unfold Context.componentSites Context.trim
  simp only [List.filter_map, List.map_map, Function.comp_def, Component.trim, NodeOptions.trim,
    hasBuildableFiles_trim]
  rfl

/-! ## The same settings -/

variable (setting : Setting)

theorem inheritedFrom_trim :
    inheritedFrom setting (context.trim trim) = inheritedFrom setting context := by
  unfold inheritedFrom
  rw [Context.interfaceIncludes_trim, Context.languages_trim]
  rfl

/-- What a node takes over apart from the bundle that serves it. -/
def Inherited.apart (inherited : Inherited) : Inherited :=
  { inherited with owner := none }

theorem make_trim {parent other : Inherited} (same : other.apart = parent.apart) (node : Node)
    (groups : List Group) :
    Plan.make setting other (node.trim trim) (Group.trimAll trim groups) =
      { Plan.make setting parent node groups with
        node := node.trim trim
        parent := other
        fileAbstractions := hasFileAbstractions (trim.files node.options.files)
        hasGroups := !(Group.trimAll trim groups).isEmpty } := by
  have files : (node.trim trim).options.files = trim.files node.options.files := rfl
  simp only [Inherited.apart, Inherited.mk.injEq] at same
  unfold Plan.make
  simp only [files, Classification.ofFiles_trim, subtreeLanguages_trim, same]
  rfl

theorem apart_inheritedWithin_trim (around : List Branch) :
    (inheritedWithin setting (context.trim trim) (around.map (Branch.trim trim))).apart =
      (inheritedWithin setting context around).apart := by
  induction around with
  | nil => exact congrArg Inherited.apart (inheritedFrom_trim trim context setting)
  | cons branch outer induction =>
      have plan := make_trim trim setting induction branch.node branch.groups
      rw [List.map_cons, inheritedWithin, inheritedWithin]
      exact congrArg (fun plan => plan.inherited.apart) plan

theorem inheritedWithin_trim {around : List Branch}
    (spared : ∀ branch ∈ around, trim.Spares branch.node) :
    inheritedWithin setting (context.trim trim) (around.map (Branch.trim trim)) =
      inheritedWithin setting context around := by
  induction around with
  | nil => exact inheritedFrom_trim trim context setting
  | cons branch outer induction =>
      have above := induction fun other member => spared other (List.mem_cons_of_mem branch member)
      have plan := make_trim trim setting (congrArg Inherited.apart above) branch.node branch.groups
      rw [spared branch List.mem_cons_self, above] at plan
      rw [List.map_cons, inheritedWithin, inheritedWithin, above]
      exact (congrArg Plan.inherited plan).trans rfl

theorem plan_trim (site : Site) :
    (site.trim trim).plan setting (context.trim trim) =
      { site.plan setting context with
        node := site.node.trim trim
        parent := inheritedWithin setting (context.trim trim) (site.around.map (Branch.trim trim))
        fileAbstractions := hasFileAbstractions (trim.files site.options.files)
        hasGroups := !(Group.trimAll trim site.branch.groups).isEmpty } :=
  make_trim trim setting (apart_inheritedWithin_trim trim context setting site.around) site.node
    site.branch.groups

theorem plan_trim_of_spared {site : Site}
    (spared : ∀ branch ∈ site.branch :: site.around, trim.Spares branch.node) :
    (site.trim trim).plan setting (context.trim trim) =
      { site.plan setting context with
        node := site.node.trim trim
        hasGroups := !(Group.trimAll trim site.branch.groups).isEmpty } := by
  have above := inheritedWithin_trim trim context setting
    fun branch member => spared branch (List.mem_cons_of_mem _ member)
  have here : hasFileAbstractions (trim.files site.options.files) = _ :=
    spared site.branch List.mem_cons_self
  rw [plan_trim, above, here]
  rfl

theorem sources_trim (site : Site) : (site.trim trim).sources = site.sources :=
  trim.filter_real File.isSource site.options.files

/-! ## What is said -/

theorem directives_trim {site : Site}
    (spared : ∀ branch ∈ site.branch :: site.around, trim.Spares branch.node) :
    (site.trim trim).directives setting (context.trim trim) =
      Plan.directives { site.plan setting context with
        hasGroups := !(Group.trimAll trim site.branch.groups).isEmpty } ++
        site.sources.flatMap (fun file =>
          (buildFile setting (site.plan setting context) file).directives) ++
        [.blank] := by
  rw [Site.directives_eq, plan_trim_of_spared trim context setting spared, sources_trim]
  rfl

end Target

end SolutionLists
