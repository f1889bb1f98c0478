import SolutionLists.Proofs.Classification
import SolutionLists.Proofs.Target.Nodes

namespace SolutionLists

/-! What is found out about a context on the walk. Apart from the units to link, each group
and component tells of itself alone, passed over or not, in the order of the description. -/

namespace Session

def Finding.isLink : Finding → Bool
  | linkUnit _ => true
  | _ => false

theorem part_noteAll {β γ : Type} {part : Session → γ} {read? : Finding → Option β}
    {put : γ → β → γ}
    (step : ∀ session finding,
      part (session.note finding) = (read? finding).elim (part session) (put (part session)))
    (session : Session) (findings : List Finding) :
    part (session.noteAll findings) = (findings.filterMap read?).foldl put (part session) := by
  induction findings generalizing session with
  | nil => rfl
  | cons finding rest induction =>
      rw [noteAll, List.foldl_cons]
      refine (induction (session.note finding)).trans ?_
      rw [step, List.filterMap_cons]
      cases read? finding <;> rfl

end Session

namespace Target

/-- What a node tells: what its files tell and, when it is built, what it shows to others
and brings along. -/
def told (root : String) (kind : NodeKind) (built : Bool) (files : List File) :
    List Session.Finding :=
  let sorted := Classification.ofFiles root files
  Classification.findings root files ++
    if built then
      [match kind with
        | .component => .componentIncludes sorted.includes
        | .group => .userIncludes sorted.includes,
        .libraries sorted.library]
    else []

def toldByGroup (root : String) (group : Group) : List Session.Finding :=
  told root .group group.isBuildable group.options.files

def toldByComponent (root : String) (component : Component) : List Session.Finding :=
  told root .component (hasBuildableFiles component.options.files) component.options.files

end Target

def Context.told (root : String) (context : Context) : List Session.Finding :=
  (Group.allWithBelow context.groups).flatMap (Target.toldByGroup root) ++
    context.components.flatMap (Target.toldByComponent root) ++
    Classification.findings root context.constructedFiles

namespace Target

variable (setting : Setting)

/-! ## One node -/

theorem findings_files (root : String) (files : List File) :
    (Classification.findings root files).filter (!·.isLink) =
      Classification.findings root files := by
  refine List.filter_eq_self.mpr fun finding told => ?_
  rcases Classification.mem_findings root told with ⟨_, rfl⟩ | ⟨_, rfl⟩ <;> rfl

theorem told_withoutLinks (root : String) (kind : NodeKind) (built : Bool) (files : List File) :
    (told root kind built files).filter (!·.isLink) = told root kind built files := by
  unfold told
  rw [List.filter_append, findings_files]
  cases built <;> cases kind <;> rfl

theorem findings_buildFile (plan : Plan) (file : File) :
    (buildFile setting plan file).findings.filter (!·.isLink) = [] := by
  unfold buildFile
  rw [Emission.findings_append]
  split <;> rfl

theorem findings_buildNode (plan : Plan) :
    (buildNode setting plan).findings.filter (!·.isLink) = plan.findings := by
  have ofPlan : plan.findings.filter (!·.isLink) = plan.findings := by
    unfold Plan.findings
    cases plan.node.kind <;> rfl
  unfold buildNode
  simp only [Emission.findings_append, Emission.findings_join, List.filter_append,
    List.filter_flatMap, List.flatMap_map, findings_buildFile, ofPlan]
  simp

/-! ## Groups that are passed over -/

theorem findings_of_passed {files : List File} (nothing : hasBuildableFiles files = false)
    (root : String) :
    Classification.findings root files =
      (files.filter fun file => file.role = .preIncludeGlobal && !file.isTemplate).map
        fun file => .preInclude (Path.anchor root file.path) := by
  rw [← List.filterMap_eq_map, List.filterMap_filter]
  refine List.filterMap_congr fun file member => ?_
  have notBuilt := List.any_eq_false.mp nothing file member
  unfold Classification.finding?
  cases template : file.isTemplate with
  | true => simp
  | false =>
      cases role : file.role with
      | source =>
          have source := File.isSource_of_role role
          simp [File.isBuildable, template, source] at notBuilt
      | preIncludeGlobal => simp
      | header => simp
      | includeDirectory => simp
      | library => simp
      | object => simp
      | preIncludeLocal => simp
      | other => simp

mutual

theorem preIncludes_of_passed (root : String) : (group : Group) → group.isBuildable = false →
    group.preIncludes root = group.withBelow.flatMap (toldByGroup root)
  | ⟨name, options, groups⟩, passed => by
      have parts := passed
      rw [Group.isBuildable, Bool.or_eq_false_iff] at parts
      rw [Group.preIncludes, Group.withBelow, List.flatMap_cons,
        ← allPreIncludes_of_passed root groups parts.2, toldByGroup, told, passed,
        findings_of_passed parts.1]
      simp

theorem allPreIncludes_of_passed (root : String) : (groups : List Group) →
    Group.anyBuildable groups = false →
    Group.allPreIncludes root groups = (Group.allWithBelow groups).flatMap (toldByGroup root)
  | [], _ => rfl
  | group :: rest, passed => by
      rw [Group.anyBuildable, Bool.or_eq_false_iff] at passed
      rw [Group.allPreIncludes, Group.allWithBelow, List.flatMap_append,
        preIncludes_of_passed root group passed.1, allPreIncludes_of_passed root rest passed.2]

end

/-! ## The whole walk -/

mutual

theorem findings_buildGroup (parent : Inherited) (name : String) : (group : Group) →
    (buildGroup setting parent name group).findings.filter (!·.isLink) =
      group.withBelow.flatMap (toldByGroup setting.root)
  | ⟨title, options, groups⟩ => by
      rw [buildGroup, Group.withBelow, List.flatMap_cons]
      split
      case isTrue built =>
        have here : toldByGroup setting.root ⟨title, options, groups⟩ =
            Classification.findings setting.root options.files ++
              (Plan.make setting parent (Node.ofGroup name ⟨title, options, groups⟩)
                groups).findings := by
          rw [toldByGroup, Group.isBuildable, built]
          rfl
        simp only [Emission.findings_append, List.filter_append, findings_files,
          findings_buildNode, findings_buildGroups _ _ groups, here]
        simp [Session.Finding.isLink]
      case isFalse passed =>
        have nothing : (⟨title, options, groups⟩ : Group).isBuildable = false := by
          rw [Group.isBuildable]
          exact Bool.eq_false_iff.mpr passed
        have below : (Group.allPreIncludes setting.root groups).filter (!·.isLink) =
            (Group.allWithBelow groups).flatMap (toldByGroup setting.root) := by
          rw [Group.isBuildable, Bool.or_eq_false_iff] at nothing
          rw [allPreIncludes_of_passed setting.root groups nothing.2, List.filter_flatMap]
          exact List.flatMap_congr fun group _ => told_withoutLinks ..
        simp only [Emission.findings_append, List.filter_append, findings_files, below]
        rw [toldByGroup, told, nothing]
        simp

theorem findings_buildGroups (parent : Inherited) (start : String) : (groups : List Group) →
    (buildGroups setting parent start groups).findings.filter (!·.isLink) =
      (Group.allWithBelow groups).flatMap (toldByGroup setting.root)
  | [] => by
      rw [buildGroups, Group.allWithBelow]
      rfl
  | group :: rest => by
      rw [buildGroups, Group.allWithBelow, Emission.findings_append, List.filter_append,
        List.flatMap_append, findings_buildGroup parent _ group,
        findings_buildGroups parent start rest]

end

theorem findings_buildComponent (parent : Inherited) (component : Component) :
    (buildComponent setting parent component).findings.filter (!·.isLink) =
      toldByComponent setting.root component := by
  unfold buildComponent
  split
  case isTrue built =>
    have here : toldByComponent setting.root component =
        Classification.findings setting.root component.options.files ++
          (Plan.make setting parent (Node.ofComponent component) []).findings := by
      rw [toldByComponent, told, built]
      rfl
    simp only [Emission.findings_append, List.filter_append, findings_files, findings_buildNode,
      here]
    simp [Session.Finding.isLink]
  case isFalse passed =>
    rw [findings_files, toldByComponent, told, Bool.eq_false_iff.mpr passed]
    simp

theorem part_session {β γ : Type} (part : Session → γ) (read? : Session.Finding → Option β)
    (put : γ → β → γ) (context : Context)
    (step : ∀ session finding,
      part (session.note finding) = (read? finding).elim (part session) (put (part session)))
    (silent : ∀ target, read? (.linkUnit target) = none) :
    part (Tree.build setting context).session =
      ((context.told setting.root).filterMap read?).foldl put
        (part { root := setting.root, toolchain := setting.toolchain }) := by
  have unlinked : ∀ findings : List Session.Finding,
      findings.filterMap read? = (findings.filter (!·.isLink)).filterMap read? := by
    intro findings
    rw [List.filterMap_filter]
    refine List.filterMap_congr fun finding _ => ?_
    cases finding with
    | linkUnit target => exact silent target
    | _ => rfl
  refine (Session.part_noteAll step _ _).trans ?_
  rw [unlinked]
  simp only [List.filter_append, findings_buildGroups, Emission.findings_join,
    List.filter_flatMap, List.flatMap_map, findings_buildComponent, findings_files]
  rfl

theorem findings_site {context : Context} {site : Site} (member : site ∈ context.sites) :
    ∀ finding ∈ Classification.findings setting.root site.options.files,
      finding ∈ context.told setting.root := by
  intro finding told
  rcases List.mem_append.mp (options_mem_nodeOptions member) with group | component
  · rcases List.mem_map.mp group with ⟨described, listed, same⟩
    refine List.mem_append_left _ (List.mem_append_left _ ?_)
    refine List.mem_flatMap.mpr ⟨described, listed, List.mem_append_left _ ?_⟩
    rw [same]
    exact told
  · rcases List.mem_map.mp component with ⟨described, listed, same⟩
    refine List.mem_append_left _ (List.mem_append_right _ ?_)
    refine List.mem_flatMap.mpr ⟨described, listed, List.mem_append_left _ ?_⟩
    rw [same]
    exact told

end Target

end SolutionLists
