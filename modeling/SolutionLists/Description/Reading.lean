import SolutionLists.Decimal.Shortest
import SolutionLists.Description.Context
import SolutionLists.Description.Index
import SolutionLists.Configuration
import SolutionLists.Document.Source

namespace SolutionLists.Description

/-! Descriptions as they are read from documents. What is missing has a default, and
what is not known is passed over. -/

open Document (Value Source Reading Fields)

/-! ## Definitions -/

def defineValue? : Value → Option String
  | .bool value => some (if value then "true" else "false")
  | .integer value =>
      some (if value < 0x8000000000000000 then toString value else (Double.ofInt value).text)
  | .decimal value => some value.text
  | .text value => some value
  | _ => none

/-- The entry with the smallest name; of entries with one name the last. -/
def smallest? : List (String × String) → Option (String × String)
  | [] => none
  | entry :: rest =>
      match smallest? rest with
      | some other => some (if entry.1 < other.1 then entry else other)
      | none => some entry

def define? : Value → Option Define
  | .text name => some { name }
  | .object entries => do
      let pairs ← entries.mapM fun (key, value) => do pure (← key.text?, ← defineValue? value)
      (smallest? pairs).map fun (name, value) => { name, value := some value }
  | _ => none

def readDefine (source : Source) : Reading Define := do
  Reading.ofOption (define? (← source.value))

def readDefines (fields : Fields) (name : String) : Reading (List Define) :=
  fields.all name readDefine

/-! ## Files -/

def readMisc (source : Source) : Reading Misc := do
  let fields ← source.fields
    ["ASM", "C", "CPP", "C-CPP", "Link", "Link-C", "Link-CPP", "Library"]
  return {
    asm := ← fields.texts "ASM"
    c := ← fields.texts "C"
    cxx := ← fields.texts "CPP"
    cAndCxx := ← fields.texts "C-CPP"
    link := ← fields.texts "Link"
    linkC := ← fields.texts "Link-C"
    linkCxx := ← fields.texts "Link-CPP"
    library := ← fields.texts "Library" }

def abstractionNames : List String :=
  ["optimize", "debug", "warnings", "language-C", "language-CPP"]

def readAbstractions (source : Source) : Reading Abstractions := do
  let fields ← source.fields abstractionNames
  return {
    optimize := ← fields.text "optimize"
    debug := ← fields.text "debug"
    warnings := ← fields.text "warnings"
    languageC := ← fields.text "language-C"
    languageCxx := ← fields.text "language-CPP" }

def abstractionsAmong (entries : List (Value × Value)) : Reading Abstractions :=
  readAbstractions <| .settled <| .object <| entries.filter fun (key, _) =>
    key.text?.any abstractionNames.contains

def readFileEntry (source : Source) : Reading File := do
  let (fields, others) ← source.openFields
    ["file", "category", "scope", "language", "attr", "define", "define-asm", "undefine",
      "add-path", "add-path-asm", "del-path", "misc"]
  return {
    path := ← fields.text "file"
    category := ← fields.text "category"
    scopeEntry := ← fields.text "scope"
    languageEntry := ← fields.text "language"
    attr := ← fields.text "attr"
    abstractions := ← abstractionsAmong others
    define := ← readDefines fields "define"
    defineAsm := ← readDefines fields "define-asm"
    undefine := ← fields.texts "undefine"
    addPath := ← fields.texts "add-path"
    addPathAsm := ← fields.texts "add-path-asm"
    delPath := ← fields.texts "del-path"
    misc := ← fields.read "misc" readMisc {} }

/-! ## Groups and components -/

def readNodeOptions (entries : List (Value × Value)) : Reading NodeOptions := do
  let (fields, others) ← (Source.settled (.object entries)).openFields
    ["misc", "define", "define-asm", "undefine", "add-path", "add-path-asm", "del-path", "files"]
  return {
    abstractions := ← abstractionsAmong others
    misc := ← fields.read "misc" readMisc {}
    define := ← readDefines fields "define"
    defineAsm := ← readDefines fields "define-asm"
    undefine := ← fields.texts "undefine"
    addPath := ← fields.texts "add-path"
    addPathAsm := ← fields.texts "add-path-asm"
    delPath := ← fields.texts "del-path"
    files := ← fields.all "files" readFileEntry }

def readGroup : (depth : Nat) → Source → Reading Group
  | 0, _ => Reading.fail
  | depth + 1, source => do
      let (fields, others) ← source.openFields ["group", "groups"]
      return {
        name := ← fields.text "group"
        options := ← readNodeOptions others
        groups := ← fields.all "groups" (readGroup depth) }

def readGroups (fields : Fields) : Reading (List Group) :=
  fields.all "groups" (readGroup Document.greatestDepth)

def readComponent (source : Source) : Reading Component := do
  let (fields, others) ← source.openFields ["component"]
  return { identifier := ← fields.text "component", options := ← readNodeOptions others }

/-! ## Contexts -/

def readProcessor (source : Source) : Reading Processor := do
  let fields ← source.fields
    ["core", "fpu", "dsp", "mve", "endian", "trustzone", "branch-protection"]
  return {
    core := ← fields.text "core"
    fpu := ← fields.text "fpu"
    dsp := ← fields.text "dsp"
    mve := ← fields.text "mve"
    endian := ← fields.text "endian"
    trustzone := ← fields.text "trustzone"
    branchProtection := ← fields.text "branch-protection" }

def readDirectories (source : Source) : Reading OutputDirectories := do
  let fields ← source.fields ["intdir", "outdir"]
  return { intermediate := ← fields.text "intdir", output := ← fields.text "outdir" }

/-- A kind may also be given as the tag of nothing, or as the only key of an object,
with nothing behind it. -/
def readOutputKind : Source → Reading OutputKind
  | .settled (.object [(.text kind, .null)]) => pure (.ofSpelling kind)
  | .settled value => do return .ofSpelling (← (Source.settled value).text)
  | .written _ node => do
      match ← Reading.follow node with
      | .scalar properties plain text =>
          match Document.localTag? properties with
          | none => pure (.ofSpelling text)
          | some kind =>
              if plain && Yaml.isNull text then pure (.ofSpelling kind) else Reading.fail
      | _ => Reading.fail

def readOutput (source : Source) : Reading Output := do
  let fields ← source.fields ["file", "type"]
  return {
    file := ← fields.require "file" Source.text
    kind := ← fields.require "type" readOutputKind }

def readLinker (source : Source) : Reading Linker := do
  let fields ← source.fields ["script", "regions", "define"]
  return {
    script := ← fields.text "script"
    regions := ← fields.text "regions"
    define := ← readDefines fields "define" }

def readContext (source : Source) : Reading Context := do
  let (fields, others) ← source.openFields
    ["generated-by", "solution", "project", "context", "compiler", "board", "device",
      "processor", "misc", "define", "define-asm", "add-path", "add-path-asm", "output-dirs",
      "output", "components", "linker", "groups", "constructed-files"]
  return {
    generatedBy := ← fields.text "generated-by"
    solution := ← fields.text "solution"
    project := ← fields.text "project"
    name := ← fields.text "context"
    compiler := ← fields.text "compiler"
    board := ← fields.text "board"
    device := ← fields.text "device"
    processor := ← fields.read "processor" readProcessor {}
    abstractions := ← abstractionsAmong others
    misc := ← fields.read "misc" readMisc {}
    define := ← readDefines fields "define"
    defineAsm := ← readDefines fields "define-asm"
    addPath := ← fields.texts "add-path"
    addPathAsm := ← fields.texts "add-path-asm"
    directories := ← fields.read "output-dirs" readDirectories {}
    outputs := ← fields.all "output" readOutput
    components := ← fields.all "components" readComponent
    linker := ← fields.read "linker" readLinker {}
    groups := ← readGroups fields
    constructedFiles := ← fields.all "constructed-files" readFileEntry }

/-! ## Build index -/

def readContextReference (source : Source) : Reading ContextReference := do
  let fields ← source.fields ["cbuild", "project", "configuration", "depends-on"]
  return {
    path := ← fields.text "cbuild"
    project := ← fields.text "project"
    configuration := ← fields.text "configuration"
    dependsOn := ← fields.texts "depends-on" }

/-- A command always runs when this is said at all, whatever is said. -/
def readExecute (source : Source) : Reading Execute := do
  let fields ← source.fields ["execute", "run", "always", "input", "output", "depends-on"]
  return {
    name := ← fields.text "execute"
    run := ← fields.text "run"
    always := ← fields.read "always" (fun _ => pure true) false
    input := ← fields.texts "input"
    output := ← fields.texts "output"
    dependsOn := ← fields.texts "depends-on" }

def readProject (source : Source) : Reading String := do
  (← source.fields ["cproject"]).text "cproject"

def readIndex (source : Source) : Reading BuildIndex := do
  let fields ← source.fields
    ["generated-by", "csolution", "tmpdir", "cprojects", "cbuilds", "executes"]
  return {
    generatedBy := ← fields.text "generated-by"
    solution := ← fields.text "csolution"
    temporaryDirectory := ← fields.read "tmpdir" (Source.optional Source.text) none
    projects := ← fields.all "cprojects" readProject
    contexts := ← fields.all "cbuilds" readContextReference
    executes := ← fields.all "executes" readExecute }

/-! ## Documents -/

def index? (text : String) : Option BuildIndex :=
  text |> Reading.ofText? fun source => do
    (← source.fields ["build-idx"]).require "build-idx" readIndex

def context? (text : String) : Option Context :=
  text |> Reading.ofText? fun source => do
    (← source.fields ["build"]).require "build" readContext

/-! ## Configuration -/

def readToolchainEntry (source : Source) : Reading ToolchainEntry := do
  let fields ← source.fields ["name", "version", "path"]
  return {
    name := ← fields.require "name" Source.text
    version := ← fields.require "version" Source.text
    path := ← fields.require "path" Source.text }

def readConfiguration (source : Source) : Reading Configuration := do
  let fields ← source.fields ["roots", "generate", "toolchain"]
  let roots ← fields.read "roots" (Source.fields ["pack-root", "compiler-root"]) []
  let generation ← fields.read "generate" (Source.fields ["generator"]) []
  return {
    packRoot := ← roots.read "pack-root" (Source.optional Source.text) none
    compilerRoot := ← roots.read "compiler-root" (Source.optional Source.text) none
    generator := ← generation.read "generator" (Source.optional Source.text) none
    toolchains := ← fields.all "toolchain" readToolchainEntry }

end SolutionLists.Description
