import SolutionLists.Proofs.Target.IncludeStatements
import SolutionLists.Proofs.Target.InterfaceIncludes

namespace SolutionLists

/-! Directories that only private files make visible. They are handed on to nothing; yet the
unit of a source that deletes directories writes them out among those of its parent. -/

open Target

/-- A statement that has the users of its target look into a directory. -/
def Directive.Shows (directory : String) : Directive → Prop
  | includeDirectories _ scope parent includes =>
      (scope ≠ .own ∧ ∃ value, parent = some (.resolved value) ∧ value.Holds directory) ∨
        ∃ language, (language, directory) ∈ includes.shownPairs
  | _ => False

theorem Directive.Shows.isIncludes {directive : Directive} {directory : String}
    (shows : directive.Shows directory) : directive.isIncludes = true := by
  cases directive with
  | includeDirectories => rfl
  | _ => exact shows.elim

/-- Nothing in a context shows a directory to others: no file, no added path. -/
structure Context.Hides (context : Context) (root directory : String) : Prop where
  byFiles : ∀ files ∈ context.constructedFiles :: context.sites.map (·.options.files),
    directory ∉ (shownDirectories root files).map Prod.snd
  byContext : directory ∉ Path.anchorAll root (context.addPath ++ context.addPathAsm)
  byNodes : ∀ site ∈ context.sites,
    directory ∉ Path.anchorAll root (site.options.addPath ++ site.options.addPathAsm)
  bySources : ∀ site ∈ context.sites, ∀ file ∈ site.sources,
    directory ∉ Path.anchorAll root (file.addPath ++ file.addPathAsm)

def Target.Site.Keeps (root directory : String) (site : Site) : Prop :=
  directory ∈ (keptDirectories root site.options.files).map Prod.snd

variable {setting : Setting} {context : Context} {root directory : String}

variable (setting context) in
theorem Target.Site.Keeps.scope_plan {site : Site} (keeps : site.Keeps root directory) :
    (site.plan setting context).scope = .shared := by
  rcases List.mem_map.mp keeps with ⟨pair, kept, -⟩
  rcases List.mem_map.mp kept with ⟨file, listed, -⟩
  have plain : site.options.files.any (·.isPlainSource) = true := by
    simp only [List.mem_filter, Bool.and_eq_true] at listed
    exact listed.2.2.1
  change (if (Classification.ofFiles setting.root site.options.files).interface then _
    else _) = _
  rw [Classification.interface_ofFiles, plain]
  rfl

namespace Target.Plan

theorem shownPairs_ownIncludes (plan : Plan) : plan.ownIncludes.shownPairs = ∅ := by
  ext pair
  refine iff_of_false ?_ id
  rintro ⟨scope, shown, inside⟩
  unfold ownIncludes at inside
  split at inside
  · rw [ScopeMap.get, ScopeMap.get?_set, if_neg shown] at inside
    simp at inside
  · simp at inside

end Target.Plan

namespace Context.Hides

theorem constructedFiles (hides : context.Hides root directory) (language : Language) :
    (language, directory) ∉ shownDirectories root context.constructedFiles :=
  fun shown => hides.byFiles _ List.mem_cons_self (List.mem_map_of_mem shown)

theorem files (hides : context.Hides root directory) {site : Site}
    (member : site ∈ context.sites) (language : Language) :
    (language, directory) ∉ shownDirectories root site.options.files :=
  fun shown => hides.byFiles _ (List.mem_cons_of_mem _ (List.mem_map_of_mem member))
    (List.mem_map_of_mem shown)

/-! ## What is handed on -/

theorem includes (hides : context.Hides root directory) :
    ¬ (context.includes root).Holds directory := by
  intro held
  rcases LanguageMap.Holds.of_factor held with ⟨language, added⟩
  rw [mem_get_added hides.byContext, LanguageMap.mem_get_appendPropagating,
    Classification.shownPairs_ofFiles] at added
  rcases added with nothing | shown
  · simp at nothing
  · exact hides.constructedFiles language shown

theorem interfaceIncludes (hides : context.Hides setting.root directory) :
    ¬ (context.interfaceIncludes setting.root).Holds directory := by
  rintro ⟨language, held⟩
  rcases (mem_interfaceIncludes setting context).mp held with own | ⟨site, member, shown⟩
  · exact hides.includes ⟨language, own⟩
  · exact hides.files member language shown

theorem shownBy (hides : context.Hides setting.root directory) (kind : NodeKind) :
    ¬ ((Tree.build setting context).session.shownBy kind).Holds directory := by
  rintro ⟨language, held⟩
  rcases (mem_shownBy setting context).mp held with ⟨site, ofKind, shown⟩
  refine hides.files ?_ language shown
  cases kind with
  | group => exact List.mem_append_left _ ofKind
  | component => exact List.mem_append_right _ ofKind

theorem own_plan (hides : context.Hides setting.root directory) {site : Site}
    (member : site ∈ context.sites) (language : Language) :
    (language, directory) ∉ (site.plan setting context).includes.own.shownPairs := by
  intro shown
  have ofFiles := (shown_own_mergeIncludes (hides.byNodes site member)).mp shown
  rw [Classification.shownPairs_ofFiles] at ofFiles
  exact hides.files member language ofFiles

theorem effective (hides : context.Hides setting.root directory) {site : Site}
    (member : site ∈ context.sites)
    (around : ¬ (inheritedWithin setting context site.around).includes.Holds directory) :
    ¬ (site.plan setting context).includes.effective.Holds directory := by
  intro held
  rcases holds_effective_mergeIncludes held with fromParent | ⟨language, shown⟩
  · exact around fromParent
  · exact hides.own_plan member language shown

theorem within (hides : context.Hides setting.root directory) {site : Site}
    (member : site ∈ context.sites) :
    ¬ (inheritedWithin setting context site.around).includes.Holds directory := by
  rcases site with ⟨branch, around⟩
  induction around generalizing branch with
  | nil => exact hides.interfaceIncludes
  | cons outer rest induction =>
      have outerMember := Context.mem_sites_of_around member rfl
      exact hides.effective outerMember (induction outer outerMember)

/-! ## What the statements show -/

theorem node_shows (hides : context.Hides setting.root directory) {site : Site}
    (member : site ∈ context.sites) :
    ¬ (site.plan setting context).includeStatement.Shows directory := by
  rintro (⟨-, value, written, held⟩ | ⟨language, shown⟩)
  · have parent : parentIncludes _ (inheritedWithin setting context site.around).includes _ =
        .resolved value := Option.some.inj written
    rcases parentIncludes_eq_resolved.mp parent with ⟨-, rfl⟩
    exact hides.within member (LanguageMap.holds_without.mp held).1
  · exact hides.own_plan member language shown

theorem unitIncludes (hides : context.Hides setting.root directory) {site : Site}
    (member : site ∈ context.sites) :
    (site.plan setting context).unitIncludes.Holds directory ↔
      site.Keeps setting.root directory := by
  have kept : (((site.plan setting context).files.includes.get .own).Holds directory) ↔
      ∃ language, (language, directory) ∈ keptDirectories setting.root site.options.files := by
    change (∃ language, (language, directory) ∈ ((Classification.ofFiles setting.root
      site.options.files).includes.get .own).pairs) ↔ _
    rw [Classification.ownPairs_ofFiles]
    rfl
  rw [Plan.unitIncludes, LanguageMap.holds_appendAll,
    or_iff_right (hides.effective member (hides.within member)), kept, Site.Keeps]
  simp

theorem unit_shows (hides : context.Hides setting.root directory) {site : Site}
    (member : site ∈ context.sites) {file : File} (source : file ∈ site.sources) :
    ((site.plan setting context).unitStatement setting file).Shows directory ↔
      site.Keeps setting.root directory ∧ file.delPath ≠ [] ∧
        directory ∉ Path.anchorAll setting.root file.delPath := by
  have own : ∀ language, (language, directory) ∉
      ((site.plan setting context).unitMerged setting file).own.shownPairs := by
    intro language shown
    have inOwn := (shown_own_mergeIncludes (hides.bySources site member file source)).mp shown
    rw [Plan.shownPairs_ownIncludes] at inOwn
    exact inOwn
  have written : ((site.plan setting context).unitStatement setting file).Shows directory ↔
      ∃ value, ((site.plan setting context).unitMerged setting file).parent = .resolved value ∧
        value.Holds directory := by
    simp [Plan.unitStatement, Directive.Shows, own]
  rw [written, ← hides.unitIncludes member, Plan.unitMerged, mergeIncludes]
  simp [parentIncludes_eq_resolved, Path.anchorAll, LanguageMap.holds_without, and_left_comm]

theorem says_kept (hides : context.Hides setting.root directory) {site : Site}
    (member : site ∈ context.sites) (keeps : site.Keeps setting.root directory) :
    ∃ parent includes,
      .includeDirectories site.target .shared parent includes ∈
        (Tree.build setting context).directives ∧
      (includes.get .own).Holds directory := by
  rcases List.mem_map.mp keeps with ⟨⟨language, directory⟩, kept, rfl⟩
  have own : (language, directory) ∈
      ((Classification.ofFiles setting.root site.options.files).includes.get .own).pairs := by
    rw [Classification.ownPairs_ofFiles]
    exact kept
  have said : directory ∈ ((site.plan setting context).includes.own.get .own).get language :=
    (mem_own_mergeIncludes (hides.byNodes site member)).mpr own
  have stated : .includeDirectories site.target .shared
      (some (site.plan setting context).includes.parent) (site.plan setting context).includes.own ∈
        (Tree.build setting context).directives := by
    rw [← keeps.scope_plan setting context]
    exact (mem_includes_build rfl).mpr ⟨site, member, .inl rfl⟩
  exact ⟨_, _, stated, language, said⟩

theorem shows_build (hides : context.Hides setting.root directory) (target : String) :
    (∃ directive ∈ (Tree.build setting context).directives,
      directive.target? = some target ∧ directive.Shows directory) ↔
      ∃ site ∈ context.sites, site.Keeps setting.root directory ∧
        ∃ file ∈ site.sources, file.hasCustomOptions = true ∧
          unitName site.target file.path = target ∧
          file.delPath ≠ [] ∧ directory ∉ Path.anchorAll setting.root file.delPath := by
  constructor
  · rintro ⟨directive, said, about, shows⟩
    rcases (mem_includes_build shows.isIncludes).mp said with
      ⟨site, member, rfl | ⟨file, source, custom, rfl⟩⟩
    · exact absurd shows (hides.node_shows member)
    · rcases (hides.unit_shows member source).mp shows with ⟨keeps, deletes⟩
      exact ⟨site, member, keeps, file, source, custom, Option.some.inj about, deletes⟩
  · rintro ⟨site, member, keeps, file, source, custom, named, deletes⟩
    refine ⟨(site.plan setting context).unitStatement setting file, ?_, congrArg some named, ?_⟩
    · exact (mem_includes_build rfl).mpr ⟨site, member, .inr ⟨file, source, custom, rfl⟩⟩
    · exact (hides.unit_shows member source).mpr ⟨keeps, deletes⟩

end Context.Hides

/-- A directory that a context hides is handed on by nothing, and a node that keeps it says so
in its own scope. The statements that show it are those about units of sources that delete
directories, but not this one, in a node that keeps it. -/
theorem hidden_directories_shown_by_units_alone (setting : Setting) (context : Context)
    (directory : String) (hides : context.Hides setting.root directory) :
    let tree := Tree.build setting context
    ¬ (context.interfaceIncludes setting.root).Holds directory ∧
    ¬ tree.session.includeGlobal.Holds directory ∧
    ¬ tree.session.userIncludeGlobal.Holds directory ∧
    (∀ site ∈ context.sites,
      ¬ (inheritedWithin setting context site.around).includes.Holds directory ∧
      (site.Keeps setting.root directory → ∃ parent includes,
        .includeDirectories site.target .shared parent includes ∈ tree.directives ∧
          (includes.get .own).Holds directory)) ∧
    ∀ target,
      (∃ directive ∈ tree.directives,
        directive.target? = some target ∧ directive.Shows directory) ↔
        ∃ site ∈ context.sites, site.Keeps setting.root directory ∧
          ∃ file ∈ site.sources, file.hasCustomOptions = true ∧
            unitName site.target file.path = target ∧
            file.delPath ≠ [] ∧ directory ∉ Path.anchorAll setting.root file.delPath := by
  intro tree
  refine ⟨hides.interfaceIncludes, hides.shownBy .component, hides.shownBy .group, ?_,
    hides.shows_build⟩
  intro site member
  exact ⟨hides.within member, hides.says_kept member⟩

/-- A group with a private header and a source that deletes a directory of no one. -/
private def deletingUnit : Context where
  groups :=
    [{ name := "App"
       options :=
         { files :=
             [{ path := "./main.c", category := "sourceC" },
               { path := "./private/p.h", category := "header", scopeEntry := "private" },
               { path := "./unit.c", category := "sourceC", delPath := ["./unused"] }] } }]

private def deletingSetting : Setting where
  root := "project"
  toolchain := "GCC"

private theorem deletingUnit_hides :
    deletingUnit.Hides "project" (Path.solutionRoot ++ "/project/private") where
  byFiles := by decide +kernel
  byContext := by decide +kernel
  byNodes := by decide +kernel
  bySources := by decide +kernel

theorem hidden_directories_shown_by_units_alone_deleting :
    let directory := Path.solutionRoot ++ "/project/private"
    let tree := Tree.build deletingSetting deletingUnit
    deletingUnit.Hides "project" directory ∧
      ¬ (deletingUnit.interfaceIncludes "project").Holds directory ∧
      ∃ directive ∈ tree.directives,
        directive.target? = some "Group_App___unit_c" ∧ directive.Shows directory := by
  intro directory tree
  have unit : ∃ site ∈ deletingUnit.sites,
      directory ∈ (keptDirectories "project" site.options.files).map Prod.snd ∧
        ∃ file ∈ site.sources, file.hasCustomOptions = true ∧
          unitName site.target file.path = "Group_App___unit_c" ∧
          file.delPath ≠ [] ∧ directory ∉ Path.anchorAll "project" file.delPath := by
    decide +kernel
  rcases hidden_directories_shown_by_units_alone deletingSetting deletingUnit directory
    deletingUnit_hides with ⟨unseen, -, -, -, shown⟩
  exact ⟨deletingUnit_hides, unseen, (shown "Group_App___unit_c").mpr unit⟩

/-- A directory that nothing shows to others stands among those that the unit of a source
hands to its users. -/
theorem hidden_directory_among_resolved :
    ¬ ∀ (setting : Setting) (context : Context) (directory : String),
      context.Hides setting.root directory →
        ∀ directive ∈ (Tree.build setting context).directives, ¬ directive.Shows directory := by
  intro never
  let directory := Path.solutionRoot ++ "/project/private"
  let statement : Directive := .includeDirectories "Group_App___unit_c" .shared
    (some (.resolved { all := some [directory] }))
    { own := some { all := some [directory] } }
  have said : statement ∈ (Tree.build deletingSetting deletingUnit).directives := by
    decide +kernel
  refine never deletingSetting deletingUnit directory deletingUnit_hides statement said (.inl ?_)
  exact ⟨by decide, _, rfl, .all, List.mem_cons_self⟩

end SolutionLists
