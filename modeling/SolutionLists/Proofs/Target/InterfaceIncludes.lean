import SolutionLists.Proofs.Includes
import SolutionLists.Proofs.Target.Findings

namespace SolutionLists

/-! The directories that a context hands on are settled ahead of the walk. They are those
that the walk comes to: the own ones, then what components and groups are found to show. -/

namespace LanguageMap

theorem mem_get_foldl_appendPropagating {maps : List ScopeMap} {paths : LanguageMap}
    {language : Language} {path : String} :
    path ∈ (maps.foldl appendPropagating paths).get language ↔
      path ∈ paths.get language ∨ ∃ includes ∈ maps, (language, path) ∈ includes.shownPairs := by
  induction maps generalizing paths with
  | nil => simp
  | cons includes rest induction =>
      rw [List.foldl_cons, induction, mem_get_appendPropagating]
      simp [or_assoc]

end LanguageMap

open Target

/-- The directories that a finding about nodes of one kind shows. -/
def Session.Finding.includes? : NodeKind → Session.Finding → Option ScopeMap
  | .group, .userIncludes includes => some includes
  | .component, .componentIncludes includes => some includes
  | _, _ => none

def Session.shownBy (session : Session) : NodeKind → LanguageMap
  | .group => session.userIncludeGlobal
  | .component => session.includeGlobal

theorem Session.shownBy_note (kind : NodeKind) (session : Session) (finding : Session.Finding) :
    (session.note finding).shownBy kind = (finding.includes? kind).elim
      (session.shownBy kind) (session.shownBy kind).appendPropagating := by
  cases finding with
  | language language =>
      rw [note, addLanguage]
      split <;> cases kind <;> rfl
  | _ => cases kind <;> rfl

def Context.sitesOf (context : Context) : NodeKind → List Site
  | .group => context.groupSites
  | .component => context.componentSites

namespace Target

def Site.includes (root : String) (site : Site) : ScopeMap :=
  (Classification.ofFiles root site.options.files).includes

end Target

/-- What the sites of one kind show, in their order. -/
def Context.shownBy (context : Context) (root : String) (kind : NodeKind) : LanguageMap :=
  ((context.sitesOf kind).map (Site.includes root)).foldl LanguageMap.appendPropagating .empty

namespace Target

variable (setting : Setting) (context : Context)

/-! ## Ahead of the walk -/

mutual

theorem collectIncludes_eq (root : String) (around : List Branch) (name : String) :
    (group : Group) →
    group.collectIncludes root = (sitesOfGroup around name group).map (Site.includes root)
  | ⟨title, options, groups⟩ => by
      rw [Group.collectIncludes, sitesOfGroup]
      split
      · rw [List.map_cons, ← collectAllIncludes_eq root _ _ groups]
        rfl
      · rfl

theorem collectAllIncludes_eq (root : String) (around : List Branch) (start : String) :
    (groups : List Group) →
    Group.collectAllIncludes root groups =
      (sitesOfGroups around start groups).map (Site.includes root)
  | [] => rfl
  | group :: rest => by
      rw [Group.collectAllIncludes, sitesOfGroups, List.map_append,
        ← collectIncludes_eq root around _ group, ← collectAllIncludes_eq root around start rest]

end

theorem interfaceIncludes_eq (root : String) :
    context.interfaceIncludes root =
      ((context.includes root).appendAll (context.shownBy root .component)).appendAll
        (context.shownBy root .group) := by
  rw [Context.interfaceIncludes, collectAllIncludes_eq root [] "Group_"]
  simp only [Context.shownBy, Context.sitesOf, Context.componentSites, List.map_map]
  rfl

/-! ## On the walk -/

theorem includes_findings (kind : NodeKind) (root : String) (files : List File) :
    (Classification.findings root files).filterMap (Session.Finding.includes? kind) = [] := by
  apply Classification.filterMap_findings
  · intro language
    cases kind <;> rfl
  · intro file
    cases kind <;> rfl

theorem includes_told (asked kind : NodeKind) (root : String) (built : Bool)
    (files : List File) :
    (told root kind built files).filterMap (Session.Finding.includes? asked) =
      if built && kind = asked then [(Classification.ofFiles root files).includes] else [] := by
  unfold Target.told
  rw [List.filterMap_append, includes_findings]
  cases built <;> cases asked <;> cases kind <;> simp [Session.Finding.includes?]

theorem includes_context_told (kind : NodeKind) (root : String) :
    (context.told root).filterMap (Session.Finding.includes? kind) =
      (context.sitesOf kind).map (Site.includes root) := by
  have ofOptions : (context.sitesOf kind).map (Site.includes root) =
      ((context.sitesOf kind).map Site.options).map fun options =>
        (Classification.ofFiles root options.files).includes := by
    rw [List.map_map]
    rfl
  rw [ofOptions, Context.told]
  simp only [List.filterMap_append, List.filterMap_flatMap, toldByGroup, toldByComponent,
    includes_told, includes_findings]
  cases kind with
  | group =>
      rw [Context.sitesOf, options_groupSites, List.map_map]
      simp [flatMap_ite, Function.comp_def]
  | component =>
      rw [Context.sitesOf, options_componentSites, List.map_map]
      simp [flatMap_ite, Function.comp_def]

theorem shownBy_build (kind : NodeKind) :
    (Tree.build setting context).session.shownBy kind =
      context.shownBy setting.root kind := by
  rw [part_session setting (·.shownBy kind) _ _ context (Session.shownBy_note kind)
      fun _ => by cases kind <;> rfl,
    includes_context_told]
  cases kind <;> rfl

theorem mem_shownBy {kind : NodeKind} {language : Language} {directory : String} :
    directory ∈ ((Tree.build setting context).session.shownBy kind).get language ↔
      ∃ site ∈ context.sitesOf kind,
        (language, directory) ∈ shownDirectories setting.root site.options.files := by
  rw [shownBy_build, Context.shownBy, LanguageMap.mem_get_foldl_appendPropagating]
  simp [Site.includes, Classification.shownPairs_ofFiles]

/-- The context hands on what it asks for itself, what components show, and what groups
show. -/
theorem interfaceIncludes_build :
    context.interfaceIncludes setting.root =
      ((context.includes setting.root).appendAll
        (Tree.build setting context).session.includeGlobal).appendAll
          (Tree.build setting context).session.userIncludeGlobal := by
  rw [interfaceIncludes_eq, ← shownBy_build, ← shownBy_build]
  rfl

theorem mem_interfaceIncludes {language : Language} {directory : String} :
    directory ∈ (context.interfaceIncludes setting.root).get language ↔
      directory ∈ (context.includes setting.root).get language ∨
        ∃ site ∈ context.sites,
          (language, directory) ∈ shownDirectories setting.root site.options.files := by
  have shown : ∀ kind,
      directory ∈ ((Tree.build setting context).session.shownBy kind).get language ↔
        ∃ site ∈ context.sitesOf kind,
          (language, directory) ∈ shownDirectories setting.root site.options.files :=
    fun _ => mem_shownBy setting context
  rw [interfaceIncludes_build, LanguageMap.mem_get_appendAll, LanguageMap.mem_get_appendAll,
    or_assoc]
  refine or_congr Iff.rfl (or_comm.trans ?_)
  rw [Context.sites]
  simp only [List.mem_append, or_and_right, exists_or]
  exact or_congr (shown .group) (shown .component)

theorem distinct_includes (root : String) : (context.includes root).Distinct :=
  ((LanguageMap.distinct_empty.appendPropagating _).foldl_append _).factor

end Target

/-- What a context hands on, settled ahead of the walk, is what the walk comes to. -/
theorem interfaceIncludes_foresee_walk (setting : Setting) (context : Context) :
    let session := (Tree.build setting context).session
    let own := context.includes setting.root
    let interface := context.interfaceIncludes setting.root
    interface = (own.appendAll session.includeGlobal).appendAll session.userIncludeGlobal ∧
    ∀ language,
      interface.get language =
        Ordered.append (Ordered.append (own.get language) (session.includeGlobal.get language))
          (session.userIncludeGlobal.get language) ∧
      (interface.get language).Nodup ∧
      ∀ directory, directory ∈ interface.get language ↔
        directory ∈ own.get language ∨
          ∃ site ∈ context.sites,
            (language, directory) ∈ shownDirectories setting.root site.options.files := by
  intro session own interface
  have whole : interface =
      (own.appendAll session.includeGlobal).appendAll session.userIncludeGlobal :=
    interfaceIncludes_build setting context
  refine ⟨whole, fun language => ⟨?_, ?_, fun directory => ?_⟩⟩
  · rw [whole, LanguageMap.get_appendAll, LanguageMap.get_appendAll]
  · rw [whole]
    exact ((distinct_includes context setting.root).appendAll _).appendAll _ language
  · exact mem_interfaceIncludes setting context

end SolutionLists
