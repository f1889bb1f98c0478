import SolutionLists.Text.Search

namespace SolutionLists

/-! Languages of source files and the visibility of settings, with the maps that
sort paths by them. -/

/-- A bucket of paths or files: a single language, C and C++ together, or `all`
where no language is known. -/
inductive Language where
  | all
  | asm
  | c
  | cAndCxx
  | cxx
deriving DecidableEq, Repr, Inhabited

namespace Language

def buckets : List Language := [all, asm, c, cAndCxx, cxx]

theorem mem_buckets (language : Language) : language ∈ buckets := by
  cases language <;> decide

def spelling : Language → String
  | all => "ALL"
  | asm => "ASM"
  | c => "C"
  | cAndCxx => "C,CXX"
  | cxx => "CXX"

def ofSpelling? (text : String) : Option Language :=
  buckets.find? (·.spelling = text)

/-- The first part of the names of a toolchain's variables: C flags are in `CC_…`. -/
def variableStart : Language → String
  | c => "CC"
  | language => language.spelling

def ofCategory? (category : String) : Option Language :=
  if category ∈ ["headerAsm", "includeAsm", "sourceAsm"] then some asm
  else if category ∈ ["headerC", "includeC", "sourceC"] then some c
  else if category ∈ ["headerCpp", "includeCpp", "sourceCpp"] then some cxx
  else none

def ofAttribute? (entry : String) : Option Language :=
  if entry = "asm" then some asm
  else if entry = "c" then some c
  else if entry = "cpp" then some cxx
  else if entry = "c-cpp" then some cAndCxx
  else none

def extension? (file : String) : Option String :=
  let name := file.toList.reverse.takeWhile (· ≠ '/')
  if '.' ∈ name then some (String.ofList (name.takeWhile (· ≠ '.')).reverse) else none

/-- The language that the extension of a file name stands for; case counts. -/
def ofExtension? (file : String) : Option Language :=
  match extension? file with
  | none => none
  | some extension =>
      if extension ∈ ["c", "C"] then some c
      else if extension ∈ ["cpp", "c++", "C++", "cxx", "cc", "CC"] then some cxx
      else if extension ∈ ["asm", "s", "S"] then some asm
      else none

def singles : Language → List Language
  | all => [asm, c, cxx]
  | cAndCxx => [c, cxx]
  | language => [language]

example : ofExtension? "dir.x/file.cc" = some cxx := by decide
example : ofExtension? "dir.c/README" = none := by decide

end Language

/-- Who sees a setting of a target: its users only, the target itself only, or
both. -/
inductive Scope where
  | interface
  | own
  | shared
deriving DecidableEq, Repr, Inhabited

namespace Scope

def list : List Scope := [interface, own, shared]

theorem mem_list (scope : Scope) : scope ∈ list := by
  cases scope <;> decide

def spelling : Scope → String
  | interface => "INTERFACE"
  | own => "PRIVATE"
  | shared => "PUBLIC"

def ofSpelling? (text : String) : Option Scope :=
  list.find? (·.spelling = text)

def ofAttribute (entry : String) : Scope :=
  if entry = "private" ∨ entry = "hidden" then own else shared

end Scope

/-! ## Paths by language -/

/-- A list of paths for each bucket that is present. -/
structure LanguageMap where
  all : Option (List String) := none
  asm : Option (List String) := none
  c : Option (List String) := none
  cAndCxx : Option (List String) := none
  cxx : Option (List String) := none
deriving DecidableEq, Repr, Inhabited

namespace LanguageMap

def empty : LanguageMap := {}

def get? (paths : LanguageMap) : Language → Option (List String)
  | .all => paths.all
  | .asm => paths.asm
  | .c => paths.c
  | .cAndCxx => paths.cAndCxx
  | .cxx => paths.cxx

def get (paths : LanguageMap) (language : Language) : List String :=
  (paths.get? language).getD []

def put (paths : LanguageMap) (language : Language) (list : Option (List String)) :
    LanguageMap :=
  match language with
  | .all => { paths with all := list }
  | .asm => { paths with asm := list }
  | .c => { paths with c := list }
  | .cAndCxx => { paths with cAndCxx := list }
  | .cxx => { paths with cxx := list }

def set (paths : LanguageMap) (language : Language) (list : List String) : LanguageMap :=
  paths.put language (some list)

def erase (paths : LanguageMap) (language : Language) : LanguageMap :=
  paths.put language none

/-- Rework one bucket; an absent one counts as empty. -/
def update (paths : LanguageMap) (language : Language) (change : List String → List String) :
    LanguageMap :=
  paths.set language (change (paths.get language))

def toList (paths : LanguageMap) : List (Language × List String) :=
  Language.buckets.filterMap fun language =>
    (paths.get? language).map fun list => (language, list)

def ofList (entries : List (Language × List String)) : LanguageMap :=
  entries.foldl (fun paths (language, list) => paths.set language list) empty

def mapLists (paths : LanguageMap) (change : Language → List String → List String) :
    LanguageMap where
  all := paths.all.map (change .all)
  asm := paths.asm.map (change .asm)
  c := paths.c.map (change .c)
  cAndCxx := paths.cAndCxx.map (change .cAndCxx)
  cxx := paths.cxx.map (change .cxx)

def isEmpty (paths : LanguageMap) : Bool :=
  paths.toList.isEmpty

def dropEmpty (paths : LanguageMap) : LanguageMap where
  all := paths.all.filter (· ≠ [])
  asm := paths.asm.filter (· ≠ [])
  c := paths.c.filter (· ≠ [])
  cAndCxx := paths.cAndCxx.filter (· ≠ [])
  cxx := paths.cxx.filter (· ≠ [])

@[simp] theorem get?_empty (language : Language) : empty.get? language = none := by
  cases language <;> rfl

@[simp] theorem get_empty (language : Language) : empty.get language = [] := by
  cases language <;> rfl

@[simp] theorem get?_put (paths : LanguageMap) (language other : Language)
    (list : Option (List String)) :
    (paths.put language list).get? other =
      if other = language then list else paths.get? other := by
  cases language <;> cases other <;> rfl

@[simp] theorem get?_set (paths : LanguageMap) (language other : Language)
    (list : List String) :
    (paths.set language list).get? other =
      if other = language then some list else paths.get? other :=
  get?_put ..

@[simp] theorem get?_erase (paths : LanguageMap) (language other : Language) :
    (paths.erase language).get? other =
      if other = language then none else paths.get? other :=
  get?_put ..

@[simp] theorem get?_mapLists (paths : LanguageMap) (language : Language)
    (change : Language → List String → List String) :
    (paths.mapLists change).get? language = (paths.get? language).map (change language) := by
  cases language <;> rfl

@[simp] theorem get?_dropEmpty (paths : LanguageMap) (language : Language) :
    paths.dropEmpty.get? language = (paths.get? language).filter (· ≠ []) := by
  cases language <;> rfl

@[ext] theorem ext {left right : LanguageMap}
    (same : ∀ language, left.get? language = right.get? language) : left = right := by
  cases left
  cases right
  simp only [mk.injEq]
  exact ⟨same .all, same .asm, same .c, same .cAndCxx, same .cxx⟩

end LanguageMap

/-! ## Paths by scope and language -/

structure ScopeMap where
  interface : Option LanguageMap := none
  own : Option LanguageMap := none
  shared : Option LanguageMap := none
deriving DecidableEq, Repr, Inhabited

namespace ScopeMap

def empty : ScopeMap := {}

def get? (paths : ScopeMap) : Scope → Option LanguageMap
  | .interface => paths.interface
  | .own => paths.own
  | .shared => paths.shared

def get (paths : ScopeMap) (scope : Scope) : LanguageMap :=
  (paths.get? scope).getD .empty

def set (paths : ScopeMap) (scope : Scope) (languages : LanguageMap) : ScopeMap :=
  match scope with
  | .interface => { paths with interface := some languages }
  | .own => { paths with own := some languages }
  | .shared => { paths with shared := some languages }

def update (paths : ScopeMap) (scope : Scope) (change : LanguageMap → LanguageMap) : ScopeMap :=
  paths.set scope (change (paths.get scope))

def toList (paths : ScopeMap) : List (Scope × LanguageMap) :=
  Scope.list.filterMap fun scope => (paths.get? scope).map fun languages => (scope, languages)

def ofList (entries : List (Scope × LanguageMap)) : ScopeMap :=
  entries.foldl (fun paths (scope, languages) => paths.set scope languages) empty

def isEmpty (paths : ScopeMap) : Bool :=
  paths.toList.isEmpty

@[simp] theorem get?_empty (scope : Scope) : empty.get? scope = none := by
  cases scope <;> rfl

@[simp] theorem get_empty (scope : Scope) : empty.get scope = .empty := by
  cases scope <;> rfl

@[simp] theorem get?_set (paths : ScopeMap) (scope other : Scope) (languages : LanguageMap) :
    (paths.set scope languages).get? other =
      if other = scope then some languages else paths.get? other := by
  cases scope <;> cases other <;> rfl

@[ext] theorem ext {left right : ScopeMap}
    (same : ∀ scope, left.get? scope = right.get? scope) : left = right := by
  cases left
  cases right
  simp only [mk.injEq]
  exact ⟨same .interface, same .own, same .shared⟩

end ScopeMap

end SolutionLists
