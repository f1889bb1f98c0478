import SolutionLists.ContextPlan
import SolutionLists.Lists.Processor
import SolutionLists.Lists.Statement

namespace SolutionLists.Lists

/-! The files of a context: its own lists, its toolchain, its groups and its
components. -/

open SolutionLists.Path (variableReference)

/-! ## Toolchain -/

def toolchainFile (toolchain : SelectedToolchain) : String :=
  Lines.file "# toolchain.cmake"
    ["",
      "set(REGISTERED_TOOLCHAIN_ROOT " ++ quoted toolchain.root ++ ")",
      "set(REGISTERED_TOOLCHAIN_VERSION " ++ quoted toolchain.version.text ++ ")",
      "include(" ++ quoted (variableReference "CMSIS_COMPILER_ROOT" ++ "/" ++ toolchain.config) ++
        ")"]

/-! ## Parts of the lists of a context -/

def processorLines (processor : Processor) : Lines :=
  processor.assignments.map fun (name, value) => "set(" ++ name ++ " " ++ value ++ ")"

/-- The options of one language that come from the processor, then those that the
context sets. -/
def globalOptions (context : Context) (language : Language) : List String :=
  let variableOf := fun (name : String) => variableReference (language.variableStart ++ name)
  let processor := context.processor
  ["SHELL:" ++ variableOf "_CPU", "SHELL:" ++ variableOf "_FLAGS"] ++
    (if processor.trustzone = "" then [] else [variableOf "_SECURE"]) ++
    (if processor.branchProtection = "" then [] else [variableOf "_BRANCHPROT"]) ++
    (if processor.endian = "" then [] else [variableOf "_BYTE_ORDER"]) ++
    context.misc.compileFlags language

def globalCompileOptions (plan : ContextPlan) (wording : Wording) : Lines :=
  let flags := wording.languages.flatMap fun language =>
    languageOptions wording.root language (globalOptions plan.context language)
  statement "target_compile_options" (Target.context ++ " PUBLIC")
    (Lines.indent "  " (flags ++ preIncludeOptions plan.tree.session.preIncludeGlobal))

def systemIncludes (languages : List Language) : Lines :=
  (languages.filter fun language => language = .c || language = .cxx).map fun language =>
    "set(CMAKE_" ++ language.spelling ++ "_STANDARD_INCLUDE_DIRECTORIES " ++
      variableReference ("CMAKE_" ++ language.spelling ++ "_IMPLICIT_INCLUDE_DIRECTORIES") ++ ")"

def abstractionsLines (context : Context) (languages : List Language) : Lines :=
  if context.abstractions.isEmptyForAll languages then []
  else
    ["", "# Compile Options Abstractions"] ++
      abstractionsBundle Target.context context.abstractions languages

/-! ## Link step -/

def linkerVariables (linker : LinkerPlan) : Lines :=
  ["set(LD_SCRIPT " ++ quoted linker.script ++ ")"] ++
    linker.regions.toList.map (fun regions => "set(LD_REGIONS " ++ quoted regions ++ ")") ++
    (if linker.defines = [] then []
      else
        ["set(LD_SCRIPT_PP_DEFINES"] ++ Lines.indent "  " (linker.defines.map Define.text) ++
          [")"]) ++
    [match linker.preprocessed with
      | some file =>
          "set(LD_SCRIPT_PP " ++
            quoted (variableReference "CMAKE_CURRENT_BINARY_DIR" ++ "/" ++ file) ++ ")"
      | none => "set(LD_SCRIPT_PP " ++ variableReference "LD_SCRIPT" ++ ")"]

def linkerLines (plan : ContextPlan) (linker : LinkerPlan) : Lines :=
  let options :=
    ["SHELL:" ++ variableReference "LD_CPU",
      "SHELL:" ++ variableReference "_LS" ++ quoted (variableReference "LD_SCRIPT_PP")] ++
    (if plan.context.processor.trustzone = "" then []
      else ["SHELL:" ++ variableReference "LD_SECURE"]) ++
    plan.linkOptions
  ["# Linker options"] ++
    statement "target_link_options" (Target.context ++ " PUBLIC") (Lines.indent "  " options) ++
    ["set_target_properties(" ++ Target.context ++ " PROPERTIES LINK_DEPENDS " ++
      variableReference "LD_SCRIPT" ++ ")"] ++
    (if linker.preprocessed.isNone then []
      else
        ["", "# Linker script pre-processing",
          "add_custom_command(TARGET " ++ Target.context ++ " PRE_LINK COMMAND " ++
            variableReference "CPP" ++ " ARGS " ++ variableReference "CPP_ARGS_LD_SCRIPT" ++
            " BYPRODUCTS " ++ variableReference "LD_SCRIPT_PP" ++ ")"])

def conversionLines (conversion : Conversion) : Lines :=
  ["", "# " ++ conversion.title ++ " Conversion",
    " add_custom_command(TARGET " ++ Target.context ++ " POST_BUILD COMMAND " ++
      variableReference "CMAKE_OBJCOPY" ++ " " ++ conversion.arguments ++ ")"]

/-! ## The lists of a context -/

def setupLines (plan : ContextPlan) : Lines :=
  let outputDirectory := variableReference "OUT_DIR"
  let database := quoted (variableReference "CMAKE_CURRENT_BINARY_DIR" ++ "/compile_commands.json")
  let command := "  COMMAND " ++ variableReference "CMAKE_COMMAND" ++ " -E "
  let languages :=
    if plan.languages = [] then "NONE" else " ".intercalate (plan.languages.map (·.spelling))
  ["",
    "set(CONTEXT " ++ plan.context.name ++ ")",
    "set(TARGET " ++ Target.context ++ ")",
    "set(OUT_DIR " ++ quoted (Path.anchor plan.root plan.context.directories.output) ++ ")",
    "set(CMAKE_EXPORT_COMPILE_COMMANDS ON)"] ++
  plan.outputs.byproducts.map (fun (name, file) =>
    "set(" ++ name ++ " " ++ quoted file ++ ")") ++
  plan.linker?.toList.flatMap linkerVariables ++
  ["", "# Processor Options"] ++
  processorLines plan.context.processor ++
  ["", "# Toolchain config map",
    "include(\"toolchain.cmake\")",
    "", "# Setup project",
    "project(" ++ Target.context ++ " LANGUAGES " ++ languages ++ ")",
    "", "# Compilation database",
    "add_custom_target(database",
    command ++ "make_directory " ++ quoted outputDirectory,
    command ++ "copy_if_different " ++ database ++ " " ++ quoted outputDirectory,
    ")"] ++
  systemIncludes plan.languages

def targetLines (plan : ContextPlan) (wording : Wording) : Lines :=
  let kind := plan.outputs.kind.getD .library
  let properties := "set_target_properties(" ++ Target.context ++ " PROPERTIES "
  ["", "# Setup context",
    kind.command ++ "(" ++ Target.context ++ ")",
    properties ++ "PREFIX \"\" SUFFIX " ++ quoted plan.outputs.extension ++ " OUTPUT_NAME " ++
      quoted plan.outputs.name ++ ")",
    properties ++ kind.directoryProperty ++ " " ++ variableReference "OUT_DIR" ++ ")",
    "", "# Includes"] ++
  includeDirectories Target.context .shared none (ScopeMap.empty.set .shared plan.includes) ++
  ["", "# Defines"] ++
  compileDefinitions Target.context .shared none plan.context.define ++
  ["", "# Compile options"] ++
  globalCompileOptions plan wording ++
  abstractionsLines plan.context wording.languages

def contextFile (plan : ContextPlan) (wording : Wording) : String :=
  Lines.file "cmake_minimum_required(VERSION 3.22)" <|
    setupLines plan ++
    targetLines plan wording ++
    ["", "# Add groups and components", "include(\"groups.cmake\")",
      "include(\"components.cmake\")", ""] ++
    linkLibraries Target.context .shared plan.libraries ++
    [""] ++
    plan.linker?.toList.flatMap (linkerLines plan) ++
    plan.outputs.conversions.flatMap conversionLines

def directivesFile (name : String) (wording : Wording) (directives : List Directive) : String :=
  "# " ++ name ++ "\n" ++ (lines wording directives).text

def contextFiles (plan : ContextPlan) : List (String × String) :=
  let wording := Wording.make plan.root plan.languages
  [("CMakeLists.txt", contextFile plan wording),
    ("toolchain.cmake", toolchainFile plan.toolchain),
    ("groups.cmake", directivesFile "groups.cmake" wording plan.tree.groups),
    ("components.cmake", directivesFile "components.cmake" wording plan.tree.components)]

end SolutionLists.Lists
