import SolutionLists.Assembler
import SolutionLists.Classification
import SolutionLists.Description.Context
import SolutionLists.Target.Directive
import SolutionLists.Target.Name

namespace SolutionLists

/-! Groups and components as build targets. Every one that is not empty becomes a
library; settings flow down from the context, includes and definitions through
target properties, abstractions through bundles. -/

/-! ## Looking ahead over a group tree -/

mutual

def Group.isBuildable : Group → Bool
  | ⟨_, options, groups⟩ => hasBuildableFiles options.files || Group.anyBuildable groups

def Group.anyBuildable : List Group → Bool
  | [] => false
  | group :: rest => group.isBuildable || Group.anyBuildable rest

end

mutual

def Group.addLanguages (languages : List Language) : Group → List Language
  | ⟨_, options, groups⟩ =>
      Group.addAllLanguages (Ordered.append languages (sourceLanguages options.files)) groups

def Group.addAllLanguages (languages : List Language) : List Group → List Language
  | [] => languages
  | group :: rest => Group.addAllLanguages (group.addLanguages languages) rest

end

mutual

def Group.preIncludes (root : String) : Group → List Session.Finding
  | ⟨_, options, groups⟩ =>
      (options.files.filter fun file => file.role = .preIncludeGlobal && !file.isTemplate).map
          (fun file => .preInclude (Path.anchor root file.path)) ++
        Group.allPreIncludes root groups

def Group.allPreIncludes (root : String) : List Group → List Session.Finding
  | [] => []
  | group :: rest => group.preIncludes root ++ Group.allPreIncludes root rest

end

mutual

def Group.collectIncludes (root : String) : Group → List ScopeMap
  | ⟨_, options, groups⟩ =>
      if hasBuildableFiles options.files || Group.anyBuildable groups then
        (Classification.ofFiles root options.files).includes :: Group.collectAllIncludes root groups
      else []

def Group.collectAllIncludes (root : String) : List Group → List ScopeMap
  | [] => []
  | group :: rest => group.collectIncludes root ++ Group.collectAllIncludes root rest

end

def subtreeLanguages (files : List File) (groups : List Group) : List Language :=
  let languages := Group.addAllLanguages (sourceLanguages files) groups
  Language.buckets.filter (· ∈ languages)

namespace Context

def languages (context : Context) : List Language :=
  let ofComponents := context.components.foldl
    (fun languages component =>
      Ordered.append languages (sourceLanguages component.options.files))
    (Group.addAllLanguages [] context.groups)
  Ordered.append ofComponents (sourceLanguages context.constructedFiles)

def includes (context : Context) (root : String) : LanguageMap :=
  let constructed := (Classification.ofFiles root context.constructedFiles).includes
  let added := addedIncludes root { add := context.addPath, addAsm := context.addPathAsm }
  (added.foldl (fun languages (language, list) =>
      languages.update language (Ordered.append · list))
    (LanguageMap.empty.appendPropagating constructed)).factor

/-- The directories that the context hands on: its own, then what the components
show to users, then what the groups show. -/
def interfaceIncludes (context : Context) (root : String) : LanguageMap :=
  let ofComponents := (context.components.filter (hasBuildableFiles ·.options.files)).map
    fun component => (Classification.ofFiles root component.options.files).includes
  let components := ofComponents.foldl LanguageMap.appendPropagating .empty
  let groups := (Group.collectAllIncludes root context.groups).foldl
    LanguageMap.appendPropagating .empty
  ((context.includes root).appendAll components).appendAll groups

end Context

/-! ## Walking the tree -/

namespace Target

structure Emission where
  directives : List Directive := []
  findings : List Session.Finding := []
  warnings : List String := []
deriving DecidableEq, Repr

namespace Emission

def append (first second : Emission) : Emission where
  directives := first.directives ++ second.directives
  findings := first.findings ++ second.findings
  warnings := first.warnings ++ second.warnings

instance : Append Emission := ⟨append⟩

def join (emissions : List Emission) : Emission :=
  emissions.foldr append {}

end Emission

structure Setting where
  root : String
  toolchain : String
deriving DecidableEq, Repr

structure Inherited where
  target : String
  includes : LanguageMap
  defines : List Define
  abstractions : Abstractions
  /-- The nearest owner of a bundle and what its bundle carries. -/
  owner : Option (String × Abstractions)
  defineAsm : List Define
  miscAsm : List String
deriving DecidableEq, Repr

inductive NodeKind where
  | group
  | component
deriving DecidableEq, Repr

structure Node where
  name : String
  title : String
  kind : NodeKind
  options : NodeOptions
deriving DecidableEq, Repr

def Node.ofComponent (component : Component) : Node where
  name := nameOf component.identifier
  title := "component " ++ component.identifier
  kind := .component
  options := component.options

def Node.ofGroup (name : String) (group : Group) : Node where
  name
  title := "group " ++ group.name
  kind := .group
  options := group.options

structure Plan where
  node : Node
  parent : Inherited
  files : Classification
  scope : Scope
  includes : Merged (ParentPart LanguageMap) ScopeMap LanguageMap
  defines : Merged (ParentPart (List Define)) (List Define) (List Define)
  /-- Abstractions with those from around the node. -/
  abstractions : Abstractions
  /-- Some source has abstractions of its own, so no bundle serves the files. -/
  fileAbstractions : Bool
  /-- The languages below the node that its bundle has to serve. -/
  subtree : List Language
  hasGroups : Bool
  defineAsm : List Define
  miscAsm : List String
deriving DecidableEq, Repr

namespace Plan

def make (setting : Setting) (parent : Inherited) (node : Node) (groups : List Group) : Plan :=
  let options := node.options
  let files := Classification.ofFiles setting.root options.files
  let scope : Scope := if files.interface then .interface else .shared
  { node, parent, files, scope
    includes := mergeIncludes setting.root parent.target parent.includes scope files.includes
      { add := options.addPath, addAsm := options.addPathAsm, delete := options.delPath }
    defines := mergeDefines parent.target parent.defines options.define options.undefine
    abstractions := parent.abstractions.inherit options.abstractions
    fileAbstractions := hasFileAbstractions options.files
    subtree := subtreeLanguages options.files groups
    hasGroups := !groups.isEmpty
    defineAsm := Ordered.append options.defineAsm parent.defineAsm
    miscAsm := Ordered.append parent.miscAsm options.misc.asm }

/-- A bundle is needed where something is set for a source below and the nearest
bundle carries something else. -/
def ownsBundle (plan : Plan) : Bool :=
  !plan.fileAbstractions && !plan.abstractions.isEmptyForAll plan.subtree &&
    plan.parent.owner.all fun (_, carried) => carried ≠ plan.abstractions

def owner (plan : Plan) : Option (String × Abstractions) :=
  if plan.ownsBundle then some (plan.node.name, plan.abstractions) else plan.parent.owner

def bundle? (plan : Plan) : Option String :=
  if plan.fileAbstractions then none else plan.owner.map fun (owner, _) => bundleOf owner

def inherited (plan : Plan) : Inherited where
  target := plan.node.name
  includes := plan.includes.effective
  defines := plan.defines.effective
  abstractions := plan.abstractions
  owner := plan.owner
  defineAsm := plan.defineAsm
  miscAsm := plan.miscAsm

def kind (plan : Plan) : LibraryKind :=
  if plan.files.interface then .interface
  else .object (plan.files.source.toList.flatMap (·.2))

def libraries (plan : Plan) : List String :=
  let bundle :=
    if !plan.files.interface && !plan.abstractions.isEmptyForAll plan.files.languages then
      plan.bundle?.toList
    else []
  bundle ++ plan.files.library ++ plan.files.object

/-- Options are said for a node that compiles, and for a group with groups below,
which refer to it. -/
def saysOptions (plan : Plan) : Bool :=
  !plan.files.source.isEmpty || !plan.files.custom.isEmpty ||
    (plan.hasGroups && plan.node.kind = .group)

def directives (plan : Plan) : List Directive :=
  let name := plan.node.name
  [.comment plan.node.title,
    .addLibrary name plan.kind,
    .includeDirectories name plan.scope (some plan.includes.parent) plan.includes.own,
    .compileDefinitions name plan.scope (some plan.defines.parent) plan.defines.own] ++
  (if plan.ownsBundle then [.abstractionsBundle name plan.abstractions plan.subtree] else []) ++
  (if plan.saysOptions then
    [.compileOptions name plan.scope (some plan.parent.target) plan.node.options.misc
      plan.files.preIncludeLocal]
  else []) ++
  (if plan.libraries = [] then [] else [.linkLibraries name plan.scope plan.libraries])

def findings (plan : Plan) : List Session.Finding :=
  [match plan.node.kind with
    | .component => .componentIncludes plan.files.includes
    | .group => .userIncludes plan.files.includes,
    .libraries plan.files.library]

def unitIncludes (plan : Plan) : LanguageMap :=
  plan.includes.effective.appendAll (plan.files.includes.get .own)

def ownIncludes (plan : Plan) : ScopeMap :=
  match plan.files.includes.get? .own with
  | some languages => ScopeMap.empty.set .own languages
  | none => .empty

end Plan

/-! ## Sources -/

def unitName (node file : String) : String :=
  node ++ "_" ++ nameOf file

/-- The unit of a source that cannot share the unit of its node. -/
def customUnit (setting : Setting) (plan : Plan) (file : File) : Emission :=
  let unit := unitName plan.node.name file.path
  let merged := mergeIncludes setting.root plan.node.name plan.unitIncludes .shared
    plan.ownIncludes
    { add := file.addPath, addAsm := file.addPathAsm, delete := file.delPath }
  let definitions :=
    if file.language = .asm then []
    else [.compileDefinitions unit .shared
      (some (parentDefines plan.node.name plan.defines.effective file.undefine)) file.define]
  let libraries :=
    if plan.abstractions.isEmptyFor file.language then []
    else plan.bundle?.toList.map fun bundle => .linkLibraries unit .shared [bundle]
  { directives :=
      [.blank, .comment ("file " ++ file.path),
        .addLibrary unit (.object [Path.anchor setting.root file.path]),
        .includeDirectories unit .shared (some merged.parent) merged.own] ++
      definitions ++
      [.compileOptions unit .shared (some plan.node.name) {} []] ++
      libraries
    findings := [.linkUnit unit] }

/-- The definitions that reach an assembly source, the nearest first. -/
def assemblyDefines (plan : Plan) (file : File) : List Define :=
  Ordered.append (Ordered.append file.define file.defineAsm) plan.defineAsm

def withAssemblyDefines (setting : Setting) (plan : Plan) (file : File)
    (properties : FileProperties) : FileProperties :=
  let defines := assemblyDefines plan file
  if defines = [] then properties
  else
    match AssemblerDialect.ofFile? setting.toolchain file.path
        (Ordered.append plan.miscAsm file.misc.asm) with
    | some dialect =>
        { properties with
          compileOptions := properties.compileOptions ++ dialect.symbolFlags defines }
    | none => { properties with compileDefinitions := defines }

def fileProperties (setting : Setting) (plan : Plan) (file : File) : FileProperties :=
  let language := file.language
  let flags : FileProperties :=
    { file := Path.anchor setting.root file.path
      language
      compileOptions := file.misc.compileFlags language }
  let defined :=
    if language = .asm then withAssemblyDefines setting plan file flags else flags
  let abstractions := plan.abstractions.inherit file.abstractions
  if plan.fileAbstractions && !abstractions.isEmptyFor language then
    { defined with abstractions := some abstractions }
  else defined

def unsupported (setting : Setting) (file : File) : List String :=
  let path := Path.anchor setting.root file.path
  if file.language = .asm then
    (if file.delPath = [] then [] else ["del-path is not supported for file " ++ path]) ++
    (if file.undefine = [] then [] else ["undefine is not supported for file " ++ path])
  else []

def buildFile (setting : Setting) (plan : Plan) (file : File) : Emission :=
  let properties := fileProperties setting plan file
  let unit := if file.hasCustomOptions then customUnit setting plan file else {}
  unit ++
    { directives := if properties.isEmpty then [] else [.sourceFileProperties properties]
      warnings := unsupported setting file }

def buildNode (setting : Setting) (plan : Plan) : Emission :=
  let sources := plan.node.options.files.filter fun file => file.isSource && !file.isTemplate
  { directives := plan.directives, findings := plan.findings } ++
    Emission.join (sources.map (buildFile setting plan)) ++
    { directives := [.blank] }

/-! ## Groups and components -/

mutual

/-- A group and the groups below it. A group in which nothing is left to build is
passed over; its global pre-includes still count. -/
def buildGroup (setting : Setting) (parent : Inherited) (name : String) : Group → Emission
  | ⟨title, options, groups⟩ =>
      let node := Node.ofGroup name ⟨title, options, groups⟩
      let noted : Emission := { findings := Classification.findings setting.root options.files }
      if hasBuildableFiles options.files || Group.anyBuildable groups then
        let plan := Plan.make setting parent node groups
        noted ++ buildNode setting plan ++
          buildGroups setting plan.inherited (name ++ "_") groups ++
          { findings := [.linkUnit name] }
      else noted ++ { findings := Group.allPreIncludes setting.root groups }

def buildGroups (setting : Setting) (parent : Inherited) (start : String) :
    List Group → Emission
  | [] => {}
  | group :: rest =>
      buildGroup setting parent (start ++ nameOf group.name) group ++
        buildGroups setting parent start rest

end

def buildComponent (setting : Setting) (parent : Inherited) (component : Component) : Emission :=
  let node := Node.ofComponent component
  let noted : Emission :=
    { findings := Classification.findings setting.root component.options.files }
  if hasBuildableFiles component.options.files then
    noted ++ buildNode setting (Plan.make setting parent node []) ++
      { findings := [.linkUnit node.name] }
  else noted

def inheritedFrom (setting : Setting) (context : Context) : Inherited where
  target := Target.context
  includes := context.interfaceIncludes setting.root
  defines := context.define
  abstractions := context.abstractions
  owner :=
    if context.abstractions.isEmptyForAll context.languages then none
    else some (Target.context, context.abstractions)
  defineAsm := context.defineAsm
  miscAsm := context.misc.asm

/-- The targets of a context. Constructed files come last and only add to the
session. -/
structure Tree where
  groups : List Directive
  components : List Directive
  session : Session
  warnings : List String
deriving DecidableEq, Repr

def Tree.build (setting : Setting) (context : Context) : Tree :=
  let inherited := inheritedFrom setting context
  let groups := buildGroups setting inherited "Group_" context.groups
  let components := Emission.join (context.components.map (buildComponent setting inherited))
  let constructed := Classification.findings setting.root context.constructedFiles
  { groups := groups.directives
    components := components.directives
    session := Session.noteAll { root := setting.root, toolchain := setting.toolchain }
      (groups.findings ++ components.findings ++ constructed)
    warnings := groups.warnings ++ components.warnings }

end Target

end SolutionLists
