import SolutionLists.Define
import SolutionLists.Path.Anchor
import SolutionLists.Session

namespace SolutionLists

/-! Includes and definitions that a node takes over from the node around it. As
long as nothing is taken away the parent's target is named; otherwise the
parent's set is written out without what is removed. -/

inductive ParentPart (α : Type) where
  | inherited (target : String)
  | resolved (value : α)
deriving DecidableEq, Repr

namespace ParentPart

def value {α : Type} (part : ParentPart α) (whole : α) : α :=
  match part with
  | inherited _ => whole
  | resolved value => value

end ParentPart

/-- Directories without the removed ones; a bucket left empty disappears. -/
def LanguageMap.without (paths : LanguageMap) (removed : List String) : LanguageMap :=
  (paths.mapLists fun _ list => Ordered.without list removed).dropEmpty

def parentIncludes (target : String) (includes : LanguageMap) (removed : List String) :
    ParentPart LanguageMap :=
  if removed = [] then .inherited target else .resolved (includes.without removed)

def parentDefines (target : String) (defines : List Define) (undefine : List String) :
    ParentPart (List Define) :=
  if undefine = [] then .inherited target else .resolved (Define.remove defines undefine)

structure PathChanges where
  add : List String := []
  addAsm : List String := []
  delete : List String := []
deriving DecidableEq, Repr

/-- A setting of a node: the parent's part, its own part, and what it hands on. -/
structure Merged (Parent Own Effective : Type) where
  parent : Parent
  own : Own
  effective : Effective
deriving DecidableEq, Repr

def addedIncludes (root : String) (changes : PathChanges) : List (Language × List String) :=
  let general := if changes.add = [] then [] else [(.cAndCxx, Path.anchorAll root changes.add)]
  let assembly := if changes.addAsm = [] then [] else [(.asm, Path.anchorAll root changes.addAsm)]
  assembly ++ general

def mergeIncludes (root target : String) (inherited : LanguageMap) (scope : Scope)
    (classified : ScopeMap) (changes : PathChanges) :
    Merged (ParentPart LanguageMap) ScopeMap LanguageMap :=
  let parent := parentIncludes target inherited (Path.anchorAll root changes.delete)
  let added := addedIncludes root changes
  let own :=
    if added = [] then classified
    else classified.update scope fun languages =>
      added.foldl (fun languages (language, list) =>
        languages.update language (Ordered.append · list)) languages
  { parent, own, effective := (parent.value inherited).appendPropagating own }

def mergeDefines (target : String) (inherited defines : List Define) (undefine : List String) :
    Merged (ParentPart (List Define)) (List Define) (List Define) :=
  let parent := parentDefines target inherited undefine
  { parent, own := defines, effective := Ordered.append (parent.value inherited) defines }

/-! ## Directories that several languages share -/

def LanguageMap.shareCommon (paths : LanguageMap) (first second shared : Language) : LanguageMap :=
  let common := Ordered.common (paths.get first) (paths.get second)
  if common = [] then paths
  else
    (paths.update shared (Ordered.append · common)).mapLists fun language list =>
      if language = first ∨ language = second then Ordered.without list common else list

/-- Give each directory to the widest bucket that it belongs to. -/
def LanguageMap.factor (paths : LanguageMap) : LanguageMap :=
  let shared := (paths.shareCommon .c .cxx .cAndCxx).shareCommon .asm .cAndCxx .all
  let everywhere := shared.get .all
  (shared.mapLists fun language list =>
    if language = .all then list else Ordered.without list everywhere).dropEmpty

end SolutionLists
