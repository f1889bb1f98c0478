import SolutionLists.Proofs.Classification.Buckets
import SolutionLists.Proofs.Target.Discovery

namespace SolutionLists

/-! The global pre-includes of a context. Files tell of them wherever they stand, in groups and
components that are built and in those that are passed over. -/

/-- Whether a file is to be included ahead of every source of its context. -/
def File.isGlobalPreInclude (file : File) : Bool :=
  !file.isTemplate && file.category = "preIncludeGlobal"

theorem File.role_eq_preIncludeGlobal_iff {file : File} :
    file.role = .preIncludeGlobal ↔ file.category = "preIncludeGlobal" := by
  constructor
  · intro global
    unfold role FileRole.ofCategory at global
    split_ifs at global
    assumption
  · intro category
    rw [role, category]
    rfl

/-! ## What files tell -/

/-- The file that a finding says is included everywhere. -/
def Session.Finding.preInclude? : Session.Finding → Option String
  | preInclude file => some file
  | _ => none

theorem Session.preIncludeGlobal_note (session : Session) (finding : Session.Finding) :
    (session.note finding).preIncludeGlobal =
      finding.preInclude?.elim session.preIncludeGlobal
        (Ordered.insertLast session.preIncludeGlobal) := by
  cases finding with
  | language language => exact session.preIncludeGlobal_addLanguage language
  | _ => rfl

theorem Classification.preIncludes_findings (root : String) (files : List File) :
    (findings root files).filterMap Session.Finding.preInclude? =
      (files.filter (·.isGlobalPreInclude)).map fun file => Path.anchor root file.path := by
  rw [findings, List.filterMap_filterMap, ← List.filterMap_eq_map, List.filterMap_filter]
  refine List.filterMap_congr fun file _ => ?_
  unfold finding? File.isGlobalPreInclude
  simp only [← File.role_eq_preIncludeGlobal_iff]
  cases file.isTemplate with
  | true => rfl
  | false => cases file.role <;> rfl

theorem Context.preIncludes_told (root : String) (context : Context) :
    (context.told root).filterMap Session.Finding.preInclude? =
      ((context.files ++ context.constructedFiles).filter (·.isGlobalPreInclude)).map
        fun file => Path.anchor root file.path :=
  (filterMap_told (fun _ => rfl) (fun _ => rfl) (fun _ => rfl) root context).trans
    (Classification.preIncludes_findings root _)

open Target

/-- The global pre-includes of a context are those of all its groups, each ahead of the groups
below it, then those of its components and of its constructed files, each where it is first
met. Nothing depends on which groups and components are built. -/
theorem preIncludes_collected_everywhere (setting : Setting) (context : Context) :
    (Tree.build setting context).session.preIncludeGlobal =
      (((Group.allFiles context.groups ++ context.components.flatMap (·.options.files) ++
          context.constructedFiles).filter (·.isGlobalPreInclude)).map
        fun file => Path.anchor setting.root file.path).eraseDups := by
  rw [part_session setting Session.preIncludeGlobal _ Ordered.insertLast context
    Session.preIncludeGlobal_note fun _ => rfl, context.preIncludes_told]
  exact Ordered.append_nil_left _

-- The inner group has nothing to build, and names one file that the outer one names too.
example :
    let ahead (path : String) : File := { path, category := "preIncludeGlobal" }
    let context : Context :=
      { groups :=
          [{ name := "Outer"
             options := { files := [{ path := "main.c", category := "source" }, ahead "all.h"] }
             groups :=
               [{ name := "Inner", options := { files := [ahead "./all.h", ahead "/in.h"] } }] }]
        constructedFiles := [ahead "/rte.h"] }
    (Target.Tree.build ⟨"", "GCC"⟩ context).session.preIncludeGlobal =
      [Path.solutionRoot ++ "/all.h", "/in.h", "/rte.h"] := by
  decide +kernel

end SolutionLists
