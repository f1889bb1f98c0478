import SolutionLists.Proofs.Target.Nodes

namespace SolutionLists

/-! The statements about include directories: one for each site, and one for each of its
sources that has a unit of its own. -/

def Directive.isIncludes : Directive → Bool
  | includeDirectories .. => true
  | _ => false

namespace Target

namespace Plan

/-- The statement about the include directories of the node. -/
def includeStatement (plan : Plan) : Directive :=
  .includeDirectories plan.node.name plan.scope (some plan.includes.parent) plan.includes.own

variable (setting : Setting) (plan : Plan) (file : File)

/-- The include directories of a source that has a unit of its own. -/
def unitMerged : Merged (ParentPart LanguageMap) ScopeMap LanguageMap :=
  mergeIncludes setting.root plan.node.name plan.unitIncludes .shared plan.ownIncludes
    { add := file.addPath, addAsm := file.addPathAsm, delete := file.delPath }

def unitStatement : Directive :=
  let merged := plan.unitMerged setting file
  .includeDirectories (unitName plan.node.name file.path) .shared (some merged.parent) merged.own

end Plan

variable (setting : Setting) (context : Context)

def Site.includeStatements (site : Site) : List Directive :=
  (site.plan setting context).includeStatement ::
    (site.sources.filter (·.hasCustomOptions)).map
      ((site.plan setting context).unitStatement setting)

theorem includes_node (plan : Plan) :
    plan.directives.filter (·.isIncludes) = [plan.includeStatement] := by
  simp [Plan.directives, Plan.includeStatement, Directive.isIncludes]

theorem includes_file (plan : Plan) (file : File) :
    (buildFile setting plan file).directives.filter (·.isIncludes) =
      if file.hasCustomOptions then [plan.unitStatement setting file] else [] := by
  unfold buildFile
  by_cases custom : file.hasCustomOptions
  · simp [custom, customUnit, Plan.unitStatement, Plan.unitMerged, Directive.isIncludes]
    rintro _ - bundle - rfl
    rfl
  · simp [custom, Directive.isIncludes]

theorem includes_site (site : Site) :
    (site.directives setting context).filter (·.isIncludes) =
      site.includeStatements setting context := by
  rw [Site.directives_eq, List.filter_append, List.filter_append, List.filter_flatMap,
    includes_node, Site.includeStatements, ← flatMap_ite]
  simp only [includes_file]
  simp [Directive.isIncludes]

theorem includes_build :
    (Tree.build setting context).directives.filter (·.isIncludes) =
      context.sites.flatMap (Site.includeStatements setting context) := by
  rw [directives_build, List.filter_flatMap]
  simp only [includes_site]

variable {setting context}

theorem mem_includes_build {directive : Directive} (kind : directive.isIncludes = true) :
    directive ∈ (Tree.build setting context).directives ↔
      ∃ site ∈ context.sites,
        directive = (site.plan setting context).includeStatement ∨
          ∃ file ∈ site.sources, file.hasCustomOptions = true ∧
            directive = (site.plan setting context).unitStatement setting file := by
  have filtered : directive ∈ (Tree.build setting context).directives ↔
      directive ∈ (Tree.build setting context).directives.filter (·.isIncludes) := by
    rw [List.mem_filter, kind]
    exact (and_iff_left rfl).symm
  rw [filtered, includes_build, List.mem_flatMap]
  simp only [Site.includeStatements, List.mem_cons, List.mem_map, List.mem_filter, and_assoc,
    eq_comm]

end Target

end SolutionLists
