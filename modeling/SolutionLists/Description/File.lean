import SolutionLists.Abstractions
import SolutionLists.Define
import SolutionLists.Ordered

namespace SolutionLists

/-! The files of a description, with the settings that a file may have of its own. -/

structure Misc where
  asm : List String := []
  c : List String := []
  cxx : List String := []
  cAndCxx : List String := []
  link : List String := []
  linkC : List String := []
  linkCxx : List String := []
  library : List String := []
deriving DecidableEq, Repr, Inhabited

namespace Misc

def hasNoCompileFlags (misc : Misc) : Bool :=
  misc.asm = [] && misc.c = [] && misc.cxx = [] && misc.cAndCxx = []

def compileFlags (misc : Misc) : Language → List String
  | .asm => misc.asm
  | .c => misc.c ++ misc.cAndCxx
  | .cxx => misc.cxx ++ misc.cAndCxx
  | .cAndCxx | .all => []

end Misc

structure File where
  path : String := ""
  category : String := ""
  scopeEntry : String := ""
  languageEntry : String := ""
  attr : String := ""
  abstractions : Abstractions := {}
  define : List Define := []
  defineAsm : List Define := []
  undefine : List String := []
  addPath : List String := []
  addPathAsm : List String := []
  delPath : List String := []
  misc : Misc := {}
deriving DecidableEq, Repr, Inhabited

inductive FileRole where
  | header
  | includeDirectory
  | source
  | library
  | object
  | preIncludeLocal
  | preIncludeGlobal
  | other
deriving DecidableEq, Repr

def FileRole.ofCategory (category : String) : FileRole :=
  if category ∈ ["header", "headerAsm", "headerC", "headerCpp"] then header
  else if category ∈ ["include", "includeAsm", "includeC", "includeCpp"] then includeDirectory
  else if category ∈ ["source", "sourceAsm", "sourceC", "sourceCpp"] then source
  else if category = "library" then library
  else if category = "object" then object
  else if category = "preIncludeLocal" then preIncludeLocal
  else if category = "preIncludeGlobal" then preIncludeGlobal
  else other

namespace File

def role (file : File) : FileRole :=
  .ofCategory file.category

/-- Whether the category is one of the source categories, or begins like them. -/
def isSource (file : File) : Bool :=
  Text.startsWith file.category "source"

/-- Template files stand in a description for the user to copy; nothing is built
from them. -/
def isTemplate (file : File) : Bool :=
  file.attr = "template"

def isConfig (file : File) : Bool :=
  file.attr = "config"

/-- The language that the category names, else the `language:` entry, else the
extension. -/
def language (file : File) : Language :=
  ((Language.ofCategory? file.category).or
    ((Language.ofAttribute? file.languageEntry).or
      (Language.ofExtension? file.path))).getD .all

def scope (file : File) : Scope :=
  .ofAttribute file.scopeEntry

/-- Whether a source needs a unit of its own. Added paths always ask for one. For
assembly nothing else does: its definitions are properties of the file. -/
def hasCustomOptions (file : File) : Bool :=
  file.addPath ≠ [] || file.addPathAsm ≠ [] ||
    (file.language ≠ .asm && (file.delPath ≠ [] || file.define ≠ [] || file.undefine ≠ []))

def isPlainSource (file : File) : Bool :=
  file.isSource && !file.isTemplate && !file.hasCustomOptions

def isBuildable (file : File) : Bool :=
  !file.isTemplate &&
    (file.isSource || Text.startsWith file.category "header" ||
      Text.startsWith file.category "include" ||
      file.category = "library" || file.category = "object")

end File

/-! ## Questions about a file list -/

def hasBuildableFiles (files : List File) : Bool :=
  files.any (·.isBuildable)

def sourceLanguages (files : List File) : List Language :=
  files.foldl (fun languages file =>
    if file.isSource && !file.isTemplate && file.language ≠ .all then
      Ordered.append languages file.language.singles
    else languages) []

def hasFileAbstractions (files : List File) : Bool :=
  files.any fun file => file.isSource && !file.abstractions.isEmptyFor file.language

end SolutionLists
