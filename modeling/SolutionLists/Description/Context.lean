import SolutionLists.Description.File

namespace SolutionLists

/-! The description of one context: a project built for one target in one build
type, with its groups, its components and its link step. -/

structure Processor where
  core : String := ""
  fpu : String := ""
  dsp : String := ""
  mve : String := ""
  endian : String := ""
  trustzone : String := ""
  branchProtection : String := ""
deriving DecidableEq, Repr, Inhabited

structure OutputDirectories where
  intermediate : String := ""
  output : String := ""
deriving DecidableEq, Repr, Inhabited

inductive OutputKind where
  | elf
  | lib
  | hex
  | bin
  | cmseLib
  | map
  | other
deriving DecidableEq, Repr, Inhabited

namespace OutputKind

def list : List OutputKind := [elf, lib, hex, bin, cmseLib, map, other]

def spelling : OutputKind → String
  | elf => "elf"
  | lib => "lib"
  | hex => "hex"
  | bin => "bin"
  | cmseLib => "cmse-lib"
  | map => "map"
  | other => "other"

def ofSpelling (text : String) : OutputKind :=
  (list.find? (·.spelling = text)).getD other

end OutputKind

structure Output where
  file : String
  kind : OutputKind
deriving DecidableEq, Repr, Inhabited

structure Linker where
  script : String := ""
  regions : String := ""
  define : List Define := []
deriving DecidableEq, Repr, Inhabited

/-- What a group or a component may change of the settings around it. What is
empty is taken over; only `undefine` and `delPath` take something away. -/
structure NodeOptions where
  abstractions : Abstractions := {}
  misc : Misc := {}
  define : List Define := []
  defineAsm : List Define := []
  undefine : List String := []
  addPath : List String := []
  addPathAsm : List String := []
  delPath : List String := []
  files : List File := []
deriving DecidableEq, Repr, Inhabited

structure Group where
  name : String := ""
  options : NodeOptions := {}
  groups : List Group := []
deriving Repr, Inhabited

structure Component where
  identifier : String := ""
  options : NodeOptions := {}
deriving DecidableEq, Repr, Inhabited

structure Context where
  generatedBy : String := ""
  solution : String := ""
  project : String := ""
  name : String := ""
  /-- The required toolchain: a name, or a name and a constraint on its version. -/
  compiler : String := ""
  board : String := ""
  device : String := ""
  processor : Processor := {}
  abstractions : Abstractions := {}
  misc : Misc := {}
  define : List Define := []
  defineAsm : List Define := []
  addPath : List String := []
  addPathAsm : List String := []
  directories : OutputDirectories := {}
  outputs : List Output := []
  components : List Component := []
  linker : Linker := {}
  groups : List Group := []
  constructedFiles : List File := []
deriving Repr, Inhabited

end SolutionLists
