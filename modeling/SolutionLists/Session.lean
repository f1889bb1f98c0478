import SolutionLists.Language
import SolutionLists.Ordered

namespace SolutionLists

/-! What is found out about a context while its groups and components are turned
into targets: languages, propagating includes, libraries, pre-includes and the
units to link. -/

structure Session where
  /-- Directory of the context below the solution root. -/
  root : String
  toolchain : String
  languages : List Language := []
  /-- Propagating includes of the components. -/
  includeGlobal : LanguageMap := {}
  /-- Propagating includes of the groups. -/
  userIncludeGlobal : LanguageMap := {}
  libraryGlobal : List String := []
  preIncludeGlobal : List String := []
  linkUnits : List String := []
deriving DecidableEq, Repr, Inhabited

namespace Session

inductive Finding where
  | language (language : Language)
  | preInclude (file : String)
  | userIncludes (includes : ScopeMap)
  | componentIncludes (includes : ScopeMap)
  | libraries (files : List String)
  | linkUnit (target : String)
deriving DecidableEq, Repr

end Session

def LanguageMap.appendAll (paths added : LanguageMap) : LanguageMap :=
  added.toList.foldl (fun paths (language, list) =>
    paths.update language (Ordered.append · list)) paths

/-- Append what a scope map shows to users: all scopes but the own one. -/
def LanguageMap.appendPropagating (paths : LanguageMap) (includes : ScopeMap) : LanguageMap :=
  includes.toList.foldl (fun paths (scope, languages) =>
    if scope = .own then paths else paths.appendAll languages) paths

namespace Session

/-- A bucket without a known language adds none; `C,CXX` adds both. -/
def addLanguage (session : Session) (language : Language) : Session :=
  if language = .all then session
  else { session with languages := Ordered.append session.languages language.singles }

def note (session : Session) : Finding → Session
  | .language language => session.addLanguage language
  | .preInclude file =>
      { session with preIncludeGlobal := Ordered.insertLast session.preIncludeGlobal file }
  | .userIncludes includes =>
      { session with userIncludeGlobal := session.userIncludeGlobal.appendPropagating includes }
  | .componentIncludes includes =>
      { session with includeGlobal := session.includeGlobal.appendPropagating includes }
  | .libraries files => { session with libraryGlobal := session.libraryGlobal ++ files }
  | .linkUnit target => { session with linkUnits := session.linkUnits ++ [target] }

def noteAll (session : Session) (findings : List Finding) : Session :=
  findings.foldl note session

@[simp] theorem noteAll_nil (session : Session) : session.noteAll [] = session := rfl

@[simp] theorem noteAll_append (session : Session) (first second : List Finding) :
    session.noteAll (first ++ second) = (session.noteAll first).noteAll second := by
  simp [noteAll]

end Session

end SolutionLists
