import SolutionLists.Proofs.Includes
import SolutionLists.Proofs.Path.Spelling
import SolutionLists.Proofs.Target.IncludeStatements

namespace SolutionLists

/-! Directories that a node or a source deletes. What is deleted is found by the text that
comes out of its path, and not every spelling of a directory comes out as the same text. -/

open Target

/-- What is left of `inherited` once `deleted` is taken away. The directory of an include file
is taken away by each of its spellings where neither text is anchored, and by an anchored one
that is spelled clean. -/
structure Removes (root : String) (deleted : List String) (inherited resolved : LanguageMap) :
    Prop where
  exactly : ∀ language directory, directory ∈ resolved.get language ↔
    directory ∈ inherited.get language ∧ directory ∉ Path.anchorAll root deleted
  free : ∀ file : File, file.role = .includeDirectory → ∀ path ∈ deleted,
    Path.SameDirectory file.path path → Path.Unmixed file.path →
    Path.isAnchored (Path.forwardSlashes (Path.clean file.path)) = false →
    Path.isAnchored (Path.forwardSlashes path) = false →
      ¬ resolved.Holds (Classification.includeDirectory root file)
  spelled : ∀ file : File, file.role = .includeDirectory → ∀ path ∈ deleted,
    Path.SameDirectory file.path path → Path.Unmixed file.path →
    ('\\' ∈ file.path.toList → Path.SpelledClean file.path) → Path.SpelledClean path →
      ¬ resolved.Holds (Classification.includeDirectory root file)
  /-- A single deletion that is anchored and not spelled clean does not find the directory. -/
  unspelled : ∀ file : File, file.role = .includeDirectory → ∀ path, deleted = [path] →
    Path.SameDirectory file.path path → '\\' ∉ file.path.toList →
    Path.isAnchored (Path.clean file.path) = true →
    Path.isAnchored (Path.forwardSlashes path) = true → ¬ Path.SpelledClean path →
      (resolved.Holds (Classification.includeDirectory root file) ↔
        inherited.Holds (Classification.includeDirectory root file))

theorem Classification.includeDirectory_of_role {file : File} (root : String)
    (role : file.role = .includeDirectory) :
    includeDirectory root file = Path.anchor root (Path.clean file.path) := by
  rw [includeDirectory, role]
  rfl

theorem removes_without (root : String) (deleted : List String) (inherited : LanguageMap) :
    Removes root deleted inherited (inherited.without (Path.anchorAll root deleted)) where
  exactly _ _ := LanguageMap.mem_get_without
  free file role path member same unmixed free otherFree held := by
    have text := Path.anchor_clean_of_free root same unmixed free otherFree
    rw [Classification.includeDirectory_of_role root role, text] at held
    exact (LanguageMap.holds_without.mp held).2 (List.mem_map_of_mem member)
  spelled file role path member same unmixed spelled otherSpelled held := by
    have text := Path.anchor_clean_of_spelled root same unmixed spelled otherSpelled
    rw [Classification.includeDirectory_of_role root role, text] at held
    exact (LanguageMap.holds_without.mp held).2 (List.mem_map_of_mem member)
  unspelled file role path single same plain anchored otherAnchored unspelled := by
    have texts : ¬ Path.anchor root (Path.clean file.path) = Path.anchor root path := by
      rw [Path.anchor_clean_iff_of_anchored same plain anchored otherAnchored]
      exact unspelled
    subst single
    rw [Classification.includeDirectory_of_role root role, LanguageMap.holds_without]
    exact and_iff_left fun found => texts (List.mem_singleton.mp found)

/-- What is written out for a node or a source that deletes directories. -/
theorem deletions_remove_spellings (setting : Setting) (context : Context) :
    let tree := Tree.build setting context
    ∀ site ∈ context.sites,
      (site.options.delPath ≠ [] → ∃ scope resolved own,
        .includeDirectories site.target scope (some (.resolved resolved)) own ∈
          tree.directives ∧
        Removes setting.root site.options.delPath
          (inheritedWithin setting context site.around).includes resolved) ∧
      ∀ file ∈ site.sources, file.hasCustomOptions = true → file.delPath ≠ [] →
        ∃ resolved own,
          .includeDirectories (unitName site.target file.path) .shared
            (some (.resolved resolved)) own ∈ tree.directives ∧
          Removes setting.root file.delPath (site.plan setting context).unitIncludes
            resolved := by
  intro tree site member
  have written : ∀ (target : String) (inherited : LanguageMap) {deleted : List String},
      deleted ≠ [] →
      parentIncludes target inherited (Path.anchorAll setting.root deleted) =
        .resolved (inherited.without (Path.anchorAll setting.root deleted)) := by
    intro target inherited deleted some
    exact parentIncludes_eq_resolved.mpr ⟨fun none => some (List.map_eq_nil_iff.mp none), rfl⟩
  constructor
  · intro deletes
    have said : (site.plan setting context).includeStatement ∈ tree.directives :=
      (mem_includes_build rfl).mpr ⟨site, member, .inl rfl⟩
    have parent : (site.plan setting context).includes.parent = _ :=
      written _ (inheritedWithin setting context site.around).includes deletes
    rw [Plan.includeStatement, parent] at said
    exact ⟨_, _, _, said, removes_without ..⟩
  · intro file source custom deletes
    have said : (site.plan setting context).unitStatement setting file ∈ tree.directives :=
      (mem_includes_build rfl).mpr ⟨site, member, .inr ⟨file, source, custom, rfl⟩⟩
    have parent : ((site.plan setting context).unitMerged setting file).parent = _ :=
      written _ (site.plan setting context).unitIncludes deletes
    rw [Plan.unitStatement, parent] at said
    exact ⟨_, _, said, removes_without ..⟩

/-- A group that asks for a directory, and one below it that deletes a directory. -/
private def askingGroups (asked deleted : String) : Context where
  groups :=
    [{ name := "Outer"
       options :=
         { files :=
             [{ path := "./outer.c", category := "sourceC" },
               { path := asked, category := "include" }] }
       groups :=
         [{ name := "Inner"
            options :=
              { delPath := [deleted]
                files := [{ path := "./inner.c", category := "sourceC" }] } }] }]

private def askingSetting : Setting where
  root := "project"
  toolchain := "GCC"

theorem deletions_remove_spellings_nested :
    let context := askingGroups "./a/../inc/" "inc"
    ∃ scope resolved own,
      .includeDirectories "Group_Outer_Inner" scope (some (.resolved resolved)) own ∈
        (Tree.build askingSetting context).directives ∧
      ¬ resolved.Holds (Path.solutionRoot ++ "/project/inc") := by
  intro context
  have inner : ∃ site ∈ context.sites, site.target = "Group_Outer_Inner" ∧
      site.options.delPath = ["inc"] := by decide +kernel
  rcases inner with ⟨site, member, target, delPath⟩
  have deletes : site.options.delPath ≠ [] := by
    rw [delPath]
    exact List.cons_ne_nil _ _
  rcases (deletions_remove_spellings askingSetting context site member).1 deletes with
    ⟨scope, resolved, own, said, removes⟩
  rw [target] at said
  rw [delPath] at removes
  refine ⟨scope, resolved, own, said, ?_⟩
  let asked : File := { path := "./a/../inc/", category := "include" }
  have same : Path.SameDirectory asked.path "inc" := by
    have routes : Path.route asked.path = (.here, asked.path.toList.splitOn '/') ∧
        Path.route "inc" = (.here, (Path.clean asked.path).toList.splitOn '/') := by
      decide +kernel
    rw [Path.SameDirectory, routes.1, routes.2]
    exact ⟨rfl, Path.drops_clean (by decide +kernel)⟩
  have directory : Classification.includeDirectory "project" asked =
      Path.solutionRoot ++ "/project/inc" := by decide +kernel
  rw [← directory]
  exact removes.free asked (by decide +kernel) "inc" List.mem_cons_self same
    (.inl (by decide +kernel)) (by decide +kernel) (by decide +kernel)

/-- A directory below a variable that is asked for with a slash at the end is not found by
the very text that asks for it. -/
theorem deletion_misses_own_spelling :
    ¬ ∀ (setting : Setting) (context : Context), ∀ site ∈ context.sites,
      ∀ outer ∈ site.around, ∀ file ∈ outer.node.options.files,
        file.role = .includeDirectory → ∀ path ∈ site.options.delPath,
          Path.SameDirectory file.path path → ∀ scope resolved own,
            .includeDirectories site.target scope (some (.resolved resolved)) own ∈
              (Tree.build setting context).directives →
            ¬ resolved.Holds (Classification.includeDirectory setting.root file) := by
  intro always
  let pack := Path.variableReference "CMSIS_PACK_ROOT" ++ "/inc"
  let path := pack ++ "/"
  let asked : File := { path, category := "include" }
  let context := askingGroups path path
  let statement : Directive := .includeDirectories "Group_Outer_Inner" .shared
    (some (.resolved { all := some [pack] })) {}
  have inner : ∃ site ∈ context.sites, site.target = "Group_Outer_Inner" ∧
      site.options.delPath = [path] ∧
      ∃ outer ∈ site.around, asked ∈ outer.node.options.files := by decide +kernel
  have said : statement ∈ (Tree.build askingSetting context).directives := by decide +kernel
  have directory : Classification.includeDirectory "project" asked = pack := by decide +kernel
  rcases inner with ⟨site, member, target, delPath, outer, around, listed⟩
  refine always askingSetting context site member outer around asked listed (by decide +kernel)
    path (delPath ▸ List.mem_cons_self) ⟨rfl, .refl _⟩ .shared { all := some [pack] } {}
    (target ▸ said) ⟨.all, ?_⟩
  change Classification.includeDirectory "project" asked ∈ [pack]
  rw [directory]
  exact List.mem_cons_self

end SolutionLists
