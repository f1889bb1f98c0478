import SolutionLists.Proofs.Target.Trim

namespace SolutionLists

/-! What the walk over a description finds out does not depend on what its nodes take over,
and stays the same when templates are left out. Of groups that are left out only those hear
something that listen for global pre-includes. -/

/-- Who listens does not hear what groups tell that are left out: the pre-includes that
count wherever they stand. -/
def Trim.Unheard (trim : Trim) (hears : Session.Finding → Bool) : Prop :=
  ∀ group, trim.keepsGroup group = false → ∀ file, hears (.preInclude file) = false

namespace Target

variable (trim : Trim) (context : Context) (setting : Setting)

def Emission.heard (hears : Session.Finding → Bool) (emission : Emission) : Emission where
  findings := emission.findings.filter hears
  warnings := emission.warnings

variable (hears : Session.Finding → Bool)

theorem heard_append (first second : Emission) :
    (first ++ second).heard hears = first.heard hears ++ second.heard hears := by
  unfold Emission.heard
  rw [Emission.findings_append, List.filter_append]
  rfl

theorem heard_join (emissions : List Emission) :
    (Emission.join emissions).heard hears = Emission.join (emissions.map (·.heard hears)) := by
  induction emissions with
  | nil => rfl
  | cons emission rest induction =>
      rw [List.map_cons]
      exact (heard_append hears emission (Emission.join rest)).trans (congrArg _ induction)

theorem heard_buildFile {plan other : Plan} (name : other.node.name = plan.node.name)
    (file : File) :
    (buildFile setting other file).heard hears = (buildFile setting plan file).heard hears := by
  have unit : (customUnit setting other file).heard hears =
      (customUnit setting plan file).heard hears := by
    unfold customUnit Emission.heard
    rw [name]
  unfold buildFile
  rw [heard_append, heard_append]
  split
  · rw [unit]
    rfl
  · rfl

theorem heard_buildNode {plan other : Plan} (name : other.node.name = plan.node.name)
    (findings : other.findings = plan.findings)
    (sources : (other.node.options.files.filter fun file => file.isSource && !file.isTemplate) =
      plan.node.options.files.filter fun file => file.isSource && !file.isTemplate) :
    (buildNode setting other).heard hears = (buildNode setting plan).heard hears := by
  unfold buildNode
  simp only [heard_append, heard_join, List.map_map, Function.comp_def, sources,
    heard_buildFile setting hears name]
  unfold Emission.heard
  dsimp only
  rw [findings]

theorem heard_node_trim (parent other : Inherited) (node : Node) (groups : List Group) :
    (buildNode setting (Plan.make setting other (node.trim trim)
        (Group.trimAll trim groups))).heard hears =
      (buildNode setting (Plan.make setting parent node groups)).heard hears := by
  have name : (Plan.make setting other (node.trim trim) (Group.trimAll trim groups)).node.name =
      (Plan.make setting parent node groups).node.name := rfl
  have files : (Plan.make setting other (node.trim trim) (Group.trimAll trim groups)).files =
      (Plan.make setting parent node groups).files :=
    Classification.ofFiles_trim trim setting.root node.options.files
  apply heard_buildNode setting hears name
  · unfold Plan.findings
    rw [files]
    rfl
  · exact trim.filter_real File.isSource node.options.files

mutual

theorem mem_preIncludes (root : String) : (group : Group) → ∀ finding ∈ group.preIncludes root,
    ∃ file, finding = .preInclude file
  | ⟨_, options, groups⟩ => by
      intro finding told
      rw [Group.preIncludes] at told
      rcases List.mem_append.mp told with here | below
      · rcases List.mem_map.mp here with ⟨file, _, same⟩
        exact ⟨_, same.symm⟩
      · exact mem_allPreIncludes root groups finding below

theorem mem_allPreIncludes (root : String) : (groups : List Group) →
    ∀ finding ∈ Group.allPreIncludes root groups, ∃ file, finding = .preInclude file
  | [] => by
      intro finding told
      cases told
  | group :: rest => by
      intro finding told
      rw [Group.allPreIncludes] at told
      rcases List.mem_append.mp told with first | later
      · exact mem_preIncludes root group finding first
      · exact mem_allPreIncludes root rest finding later

end

variable {hears} in
theorem filter_preIncludes (deaf : ∀ file, hears (.preInclude file) = false)
    {findings : List Session.Finding}
    (told : ∀ finding ∈ findings, ∃ file, finding = .preInclude file) :
    findings.filter hears = [] := by
  apply List.filter_eq_nil_iff.mpr
  intro finding member
  rcases told finding member with ⟨file, rfl⟩
  rw [deaf file]
  exact Bool.false_ne_true

variable {hears} in
theorem heard_passed (deaf : ∀ file, hears (.preInclude file) = false) {group : Group}
    (passed : group.isBuildable = false) (parent : Inherited) (name : String) :
    (buildGroup setting parent name group).heard hears = {} := by
  rcases group with ⟨title, options, groups⟩
  rw [Group.isBuildable] at passed
  have noted : (Classification.findings setting.root options.files).filter hears = [] := by
    apply filter_preIncludes deaf
    intro finding told
    rw [findings_of_passed (Bool.or_eq_false_iff.mp passed).1] at told
    rcases List.mem_map.mp told with ⟨file, _, same⟩
    exact ⟨_, same.symm⟩
  have below := filter_preIncludes deaf (mem_allPreIncludes setting.root groups)
  rw [buildGroup, if_neg (Bool.eq_false_iff.mp passed), heard_append]
  unfold Emission.heard
  dsimp only
  rw [noted, below]
  rfl

variable {trim hears}

mutual

theorem heard_preIncludes_trim (unheard : trim.Unheard hears) (root : String) : (group : Group) →
    ((group.trim trim).preIncludes root).filter hears = (group.preIncludes root).filter hears
  | ⟨name, options, groups⟩ => by
      have files : (options.trim trim).files = trim.files options.files := rfl
      rw [Group.trim, Group.preIncludes, Group.preIncludes, List.filter_append, List.filter_append,
        heard_allPreIncludes_trim unheard root groups, files, trim.filter_real]

theorem heard_allPreIncludes_trim (unheard : trim.Unheard hears) (root : String) :
    (groups : List Group) →
    (Group.allPreIncludes root (Group.trimAll trim groups)).filter hears =
      (Group.allPreIncludes root groups).filter hears
  | [] => rfl
  | group :: rest => by
      have later := heard_allPreIncludes_trim unheard root rest
      rw [Group.trimAll, Group.allPreIncludes, List.filter_append]
      cases kept : trim.keepsGroup group with
      | true =>
          rw [if_pos rfl, Group.allPreIncludes, List.filter_append,
            heard_preIncludes_trim unheard root group, later]
      | false =>
          rw [if_neg Bool.false_ne_true, later,
            filter_preIncludes (unheard group kept) (mem_preIncludes root group), List.nil_append]

end

mutual

theorem heard_buildGroup_trim (unheard : trim.Unheard hears) (parent other : Inherited)
    (name : String) : (group : Group) →
    (buildGroup setting other name (group.trim trim)).heard hears =
      (buildGroup setting parent name group).heard hears
  | ⟨title, options, groups⟩ => by
      let node := Node.ofGroup name ⟨title, options, groups⟩
      let plan := Plan.make setting parent node groups
      let trimmed := Plan.make setting other (node.trim trim) (Group.trimAll trim groups)
      have files : (options.trim trim).files = trim.files options.files := rfl
      have here : (buildNode setting trimmed).heard hears = (buildNode setting plan).heard hears :=
        heard_node_trim trim setting hears parent other node groups
      have below := heard_buildGroups_trim unheard plan.inherited trimmed.inherited (name ++ "_")
        groups
      rw [Group.trim, buildGroup, buildGroup, files, hasBuildableFiles_trim,
        Group.anyBuildable_trim, Classification.findings_trim]
      split
      case isTrue =>
        simp only [heard_append]
        exact congrArg₂ (fun here below => _ ++ here ++ below ++ _) here below
      case isFalse =>
        rw [heard_append, heard_append]
        unfold Emission.heard
        dsimp only
        rw [heard_allPreIncludes_trim unheard]

theorem heard_buildGroups_trim (unheard : trim.Unheard hears) (parent other : Inherited)
    (start : String) : (groups : List Group) →
    (buildGroups setting other start (Group.trimAll trim groups)).heard hears =
      (buildGroups setting parent start groups).heard hears
  | [] => rfl
  | group :: rest => by
      have later := heard_buildGroups_trim unheard parent other start rest
      rw [Group.trimAll, buildGroups, heard_append]
      cases kept : trim.keepsGroup group with
      | true =>
          rw [if_pos rfl, buildGroups, heard_append, Group.name_trim,
            heard_buildGroup_trim unheard parent other _ group, later]
      | false =>
          rw [if_neg Bool.false_ne_true, later,
            heard_passed setting (unheard group kept) (trim.isBuildable_of_left kept)]
          rfl

end

theorem heard_buildComponent_trim (parent other : Inherited) (component : Component) :
    (buildComponent setting other (component.trim trim)).heard hears =
      (buildComponent setting parent component).heard hears := by
  have files : (component.trim trim).options.files = trim.files component.options.files := rfl
  have here := heard_node_trim trim setting hears parent other (Node.ofComponent component) []
  unfold buildComponent
  rw [files, hasBuildableFiles_trim, Classification.findings_trim]
  split
  case isTrue =>
    simp only [heard_append]
    exact congrArg (fun here => _ ++ here ++ _) here
  case isFalse => rfl

def walk (setting : Setting) (context : Context) : Emission :=
  let inherited := inheritedFrom setting context
  buildGroups setting inherited "Group_" context.groups ++
    Emission.join (context.components.map (buildComponent setting inherited)) ++
    { findings := Classification.findings setting.root context.constructedFiles }

theorem session_build : (Tree.build setting context).session =
    Session.noteAll { root := setting.root, toolchain := setting.toolchain }
      (walk setting context).findings :=
  rfl

theorem warnings_build : (Tree.build setting context).warnings = (walk setting context).warnings :=
  (List.append_nil _).symm

theorem heard_walk_trim (unheard : trim.Unheard hears) :
    (walk setting (context.trim trim)).heard hears = (walk setting context).heard hears := by
  have groups := heard_buildGroups_trim setting unheard (inheritedFrom setting context)
    (inheritedFrom setting (context.trim trim)) "Group_" context.groups
  have components : ((context.trim trim).components.map
      (buildComponent setting (inheritedFrom setting (context.trim trim)))).map (·.heard hears) =
        (context.components.map
          (buildComponent setting (inheritedFrom setting context))).map (·.heard hears) := by
    rw [Context.trim, List.map_map, List.map_map, List.map_map]
    apply List.map_congr_left
    intro component _
    exact heard_buildComponent_trim setting _ _ component
  have constructed : Classification.findings setting.root (context.trim trim).constructedFiles =
      Classification.findings setting.root context.constructedFiles :=
    Classification.findings_trim trim setting.root context.constructedFiles
  unfold walk
  simp only [heard_append, heard_join]
  rw [components, constructed]
  exact congrArg (· ++ _ ++ _) groups

variable (trim)

theorem warnings_trim :
    (Tree.build setting (context.trim trim)).warnings = (Tree.build setting context).warnings := by
  have silent : trim.Unheard fun _ => false := fun _ _ _ => rfl
  have same := congrArg Emission.warnings (heard_walk_trim context setting silent)
  rw [warnings_build, warnings_build]
  exact same

end Target

end SolutionLists
