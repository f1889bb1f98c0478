import SolutionLists.Link
import SolutionLists.Target.Tree
import SolutionLists.Toolchain.Catalog

namespace SolutionLists

/-! Everything that is settled about a context before its lists are written. -/

structure ContextPlan where
  context : Context
  /-- Directory of the context below the solution root. -/
  root : String
  toolchain : SelectedToolchain
  tree : Target.Tree
deriving Repr

namespace ContextPlan

def make (context : Context) (root : String) (toolchain : SelectedToolchain) : ContextPlan where
  context
  root
  toolchain
  tree := Target.Tree.build { root, toolchain := toolchain.name } context

def languages (plan : ContextPlan) : List Language :=
  plan.tree.session.languages

def includes (plan : ContextPlan) : LanguageMap :=
  plan.context.interfaceIncludes plan.root

def outputs (plan : ContextPlan) : OutputPlan :=
  .ofOutputs plan.context.outputs

/-- Only an executable is linked with a script. -/
def linker? (plan : ContextPlan) : Option LinkerPlan :=
  if plan.outputs.isExecutable then some (plan.context.linker.plan plan.root) else none

/-- The units, then the libraries that they may refer to. -/
def libraries (plan : ContextPlan) : List String :=
  plan.tree.session.linkUnits ++
    linkLibraries plan.toolchain.name plan.context.misc.library plan.tree.session.libraryGlobal

def linkOptions (plan : ContextPlan) : List String :=
  (plan.context.misc.linkOptions plan.languages).map (Path.anchorOption plan.root)

end ContextPlan

end SolutionLists
