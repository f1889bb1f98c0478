import SolutionLists.Configuration
import SolutionLists.Description.Context
import SolutionLists.Description.Index
import SolutionLists.Document.Value

namespace SolutionLists

/-! Descriptions as documents, with a field for everything that is known. Some fields
are left out when they are empty. -/

open Document (Value)

def Document.presentTexts (fields : List (String × String)) : List (String × Value) :=
  (fields.filter (·.2 ≠ "")).map fun (name, text) => (name, .text text)

def Document.presentLists (fields : List (String × List Value)) : List (String × Value) :=
  (fields.filter (!·.2.isEmpty)).map fun (name, items) => (name, .list items)

open Document (presentTexts presentLists)

def Define.document (define : Define) : Value :=
  .record <| ("name", .text define.name) ::
    define.value.toList.map fun value => ("value", .text value)

def Misc.document (misc : Misc) : Value :=
  .record <| presentLists <|
    [("ASM", misc.asm), ("C", misc.c), ("CPP", misc.cxx), ("C-CPP", misc.cAndCxx),
      ("Link", misc.link), ("Link-C", misc.linkC), ("Link-CPP", misc.linkCxx),
      ("Library", misc.library)].map fun (name, flags) => (name, flags.map .text)

def Abstractions.fields (abstractions : Abstractions) : List (String × Value) :=
  presentTexts
    [("optimize", abstractions.optimize), ("debug", abstractions.debug),
      ("warnings", abstractions.warnings), ("language-C", abstractions.languageC),
      ("language-CPP", abstractions.languageCxx)]

def File.document (file : File) : Value :=
  .record <|
    [("file", .text file.path), ("category", .text file.category), ("misc", file.misc.document)] ++
    presentTexts [("scope", file.scopeEntry), ("language", file.languageEntry),
      ("attr", file.attr)] ++
    file.abstractions.fields ++
    presentLists
      [("define", file.define.map (·.document)), ("define-asm", file.defineAsm.map (·.document)),
        ("undefine", file.undefine.map .text), ("add-path", file.addPath.map .text),
        ("add-path-asm", file.addPathAsm.map .text), ("del-path", file.delPath.map .text)]

def NodeOptions.fields (options : NodeOptions) : List (String × Value) :=
  options.abstractions.fields ++
    [("misc", options.misc.document),
      ("define", .list (options.define.map (·.document))),
      ("define-asm", .list (options.defineAsm.map (·.document))),
      ("undefine", .texts options.undefine),
      ("add-path", .texts options.addPath),
      ("add-path-asm", .texts options.addPathAsm),
      ("del-path", .texts options.delPath),
      ("files", .list (options.files.map (·.document)))]

mutual

def Group.document : Group → Value
  | ⟨name, options, groups⟩ =>
      .record <| ("group", .text name) :: options.fields ++
        [("groups", .list (Group.documents groups))]

def Group.documents : List Group → List Value
  | [] => []
  | group :: rest => group.document :: Group.documents rest

end

def Component.document (component : Component) : Value :=
  .record (("component", .text component.identifier) :: component.options.fields)

def Processor.document (processor : Processor) : Value :=
  .record
    [("core", .text processor.core), ("fpu", .text processor.fpu), ("dsp", .text processor.dsp),
      ("mve", .text processor.mve), ("endian", .text processor.endian),
      ("trustzone", .text processor.trustzone),
      ("branch-protection", .text processor.branchProtection)]

def Context.document (context : Context) : Value :=
  .record <|
    [("generated-by", .text context.generatedBy),
      ("solution", .text context.solution),
      ("project", .text context.project),
      ("context", .text context.name),
      ("compiler", .text context.compiler),
      ("board", .text context.board),
      ("device", .text context.device),
      ("processor", context.processor.document)] ++
    context.abstractions.fields ++
    [("misc", context.misc.document),
      ("define", .list (context.define.map (·.document))),
      ("define-asm", .list (context.defineAsm.map (·.document))),
      ("add-path", .texts context.addPath),
      ("add-path-asm", .texts context.addPathAsm),
      ("output-dirs",
        .record
          [("intdir", .text context.directories.intermediate),
            ("outdir", .text context.directories.output)]),
      ("output",
        .list <| context.outputs.map fun output =>
          .record [("file", .text output.file), ("type", .text output.kind.spelling)]),
      ("components", .list (context.components.map (·.document))),
      ("linker",
        .record
          [("script", .text context.linker.script), ("regions", .text context.linker.regions),
            ("define", .list (context.linker.define.map (·.document)))]),
      ("groups", .list (Group.documents context.groups)),
      ("constructed-files", .list (context.constructedFiles.map (·.document)))]

def ContextReference.document (reference : ContextReference) : Value :=
  .record
    [("cbuild", .text reference.path), ("project", .text reference.project),
      ("configuration", .text reference.configuration),
      ("depends-on", .texts reference.dependsOn)]

def Execute.document (execute : Execute) : Value :=
  .record
    [("execute", .text execute.name), ("run", .text execute.run),
      ("always", .bool execute.always), ("input", .texts execute.input),
      ("output", .texts execute.output), ("depends-on", .texts execute.dependsOn)]

def BuildIndex.document (index : BuildIndex) : Value :=
  .record
    [("generated-by", .text index.generatedBy),
      ("csolution", .text index.solution),
      ("tmpdir", index.temporaryDirectory.elim .null .text),
      ("cprojects", .list (index.projects.map fun project =>
        .record [("cproject", .text project)])),
      ("cbuilds", .list (index.contexts.map (·.document))),
      ("executes", .list (index.executes.map (·.document)))]

def Configuration.document (configuration : Configuration) : Value :=
  let optional := fun (value : Option String) => value.elim Value.null .text
  .record
    [("roots",
        .record
          [("pack-root", optional configuration.packRoot),
            ("compiler-root", optional configuration.compilerRoot)]),
      ("generate", .record [("generator", optional configuration.generator)]),
      ("toolchain",
        .list <| configuration.toolchains.map fun entry =>
          .record
            [("name", .text entry.name), ("version", .text entry.version),
              ("path", .text entry.path)])]

end SolutionLists
