import SolutionLists.Description.Context
import SolutionLists.Path.Anchor

namespace SolutionLists

/-! The link step of a context: what it makes, the script it follows, and the
options and libraries it is given. -/

/-! ## Outputs -/

inductive ImageKind where
  | executable
  | library
deriving DecidableEq, Repr

namespace ImageKind

def command : ImageKind → String
  | executable => "add_executable"
  | library => "add_library"

def directoryProperty : ImageKind → String
  | executable => "RUNTIME_OUTPUT_DIRECTORY"
  | library => "ARCHIVE_OUTPUT_DIRECTORY"

end ImageKind

inductive Conversion where
  | hex
  | bin
deriving DecidableEq, Repr

namespace Conversion

def title : Conversion → String
  | hex => "Hex"
  | bin => "Bin"

def arguments : Conversion → String
  | hex => Path.variableReference "ELF2HEX"
  | bin => Path.variableReference "ELF2BIN"

end Conversion

structure OutputPlan where
  kind : Option ImageKind := none
  /-- Path of the image without its extension. -/
  name : String := ""
  /-- Extension of the image with its dot. -/
  extension : String := ""
  /-- Variables that name the other outputs. -/
  byproducts : List (String × String) := []
  conversions : List Conversion := []
deriving DecidableEq, Repr

namespace OutputPlan

/-- A path in front of the last dot of its file name, and from that dot on. -/
def splitExtension (path : String) : String × String :=
  let name := path.toList.reverse.takeWhile (· ≠ '/')
  if '.' ∈ name then
    let length := (name.takeWhile (· ≠ '.')).length + 1
    (String.ofList (path.toList.take (path.length - length)),
      String.ofList (path.toList.drop (path.length - length)))
  else (path, "")

def addImage (plan : OutputPlan) (kind : ImageKind) (file : String) : OutputPlan :=
  { plan with
    kind := some kind
    name := (splitExtension file).1
    extension := (splitExtension file).2 }

def add (plan : OutputPlan) (output : Output) : OutputPlan :=
  match output.kind with
  | .hex =>
      { plan with
        byproducts := plan.byproducts ++ [("HEX_FILE", output.file)]
        conversions := plan.conversions ++ [.hex] }
  | .bin =>
      { plan with
        byproducts := plan.byproducts ++ [("BIN_FILE", output.file)]
        conversions := plan.conversions ++ [.bin] }
  | .cmseLib => { plan with byproducts := plan.byproducts ++ [("CMSE_LIB", output.file)] }
  | .elf => plan.addImage .executable output.file
  | .lib => plan.addImage .library output.file
  | .map | .other => plan

def ofOutputs (outputs : List Output) : OutputPlan :=
  outputs.foldl add {}

def isExecutable (plan : OutputPlan) : Bool :=
  plan.kind = some .executable

example : splitExtension "out.d/image.axf" = ("out.d/image", ".axf") := by decide
example : splitExtension "out.d/image" = ("out.d/image", "") := by decide

end OutputPlan

/-! ## Linker script -/

structure LinkerPlan where
  script : String
  regions : Option String
  defines : List Define
  /-- File name of the script once it is preprocessed. -/
  preprocessed : Option String
deriving DecidableEq, Repr

namespace Linker

/-- A script is preprocessed when it is a `.src` template or when regions or
definitions come with it. -/
def needsPreprocessing (linker : Linker) : Bool :=
  Text.endsWith linker.script ".src" || linker.regions ≠ "" || linker.define ≠ []

def scriptName (linker : Linker) : String :=
  let name := String.ofList (linker.script.toList.reverse.takeWhile (· ≠ '/')).reverse
  (Text.stripEnd? name ".src").getD name

def plan (linker : Linker) (root : String) : LinkerPlan where
  script := Path.anchor root linker.script
  regions := if linker.regions = "" then none else some (Path.anchor root linker.regions)
  defines := linker.define
  preprocessed := if linker.needsPreprocessing then some linker.scriptName else none

end Linker

/-! ## Options and libraries -/

namespace Misc

def linkOptions (misc : Misc) (languages : List Language) : List String :=
  misc.link ++ languages.flatMap fun
    | .c => misc.linkC
    | .cxx => misc.linkCxx
    | _ => []

end Misc

/-- Libraries to link after the units. GCC looks through them once in order, so
there several libraries are bracketed as a group that is searched repeatedly. -/
def linkLibraries (toolchain : String) (own referenced : List String) : List String :=
  if toolchain = "GCC" && 1 < own.length + referenced.length then
    "-Wl,--start-group" :: own ++ referenced ++ ["-Wl,--end-group"]
  else own

end SolutionLists
