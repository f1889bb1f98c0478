import SolutionLists.Proofs.Languages
import SolutionLists.Proofs.Target.InterfaceIncludes
import SolutionLists.Proofs.Target.PreIncludes

namespace SolutionLists

/-! What a session comes to, whatever it is told and in whatever order: what was found out stays
where it stands, and the lists that the generated text goes through repeat nothing. -/

open Target

/-! ## Lists and maps that get longer -/

namespace Ordered

variable {α : Type} [DecidableEq α]

theorem prefix_insertLast (list : List α) (element : α) : list <+: insertLast list element := by
  unfold insertLast
  split
  case isTrue => exact List.prefix_refl list
  case isFalse => exact List.prefix_append list [element]

theorem prefix_append (list elements : List α) : list <+: append list elements := by
  rw [append_eq]
  exact List.prefix_append list _

end Ordered

namespace LanguageMap

/-- Each bucket of the first map is there in the second one, with more behind it at most. -/
def Grows (before after : LanguageMap) : Prop :=
  ∀ language list, before.get? language = some list →
    ∃ longer, after.get? language = some longer ∧ list <+: longer

theorem Grows.refl (paths : LanguageMap) : paths.Grows paths :=
  fun _ list present => ⟨list, present, List.prefix_refl list⟩

theorem Grows.trans {before between after : LanguageMap} (first : before.Grows between)
    (second : between.Grows after) : before.Grows after := by
  intro language list present
  rcases first language list present with ⟨middle, inBetween, start⟩
  rcases second language middle inBetween with ⟨longer, found, further⟩
  exact ⟨longer, found, start.trans further⟩

theorem grows_update (paths : LanguageMap) (language : Language) (added : List String) :
    paths.Grows (paths.update language (Ordered.append · added)) := by
  intro other list present
  rw [update, get?_set]
  by_cases same : other = language
  · subst same
    rw [if_pos rfl, get, present]
    exact ⟨_, rfl, Ordered.prefix_append list added⟩
  · rw [if_neg same]
    exact ⟨list, present, List.prefix_refl list⟩

theorem grows_foldl {α : Type} {step : LanguageMap → α → LanguageMap}
    (grows_step : ∀ (paths : LanguageMap) (item : α), paths.Grows (step paths item))
    (paths : LanguageMap) (items : List α) : paths.Grows (items.foldl step paths) := by
  induction items generalizing paths with
  | nil => exact .refl paths
  | cons item rest induction => exact (grows_step paths item).trans (induction (step paths item))

theorem grows_appendAll (paths added : LanguageMap) : paths.Grows (paths.appendAll added) := by
  refine grows_foldl (fun paths entry => ?_) paths added.toList
  exact grows_update paths entry.1 entry.2

theorem grows_appendPropagating (paths : LanguageMap) (includes : ScopeMap) :
    paths.Grows (paths.appendPropagating includes) := by
  refine grows_foldl (fun paths entry => ?_) paths includes.toList
  dsimp only
  split
  case isTrue => exact .refl paths
  case isFalse => exact grows_appendAll paths entry.2

end LanguageMap

namespace Session

/-! ## One finding -/

/-- A session in which no list repeats anything but that of the libraries and that of the
units to link. -/
structure Normal (session : Session) : Prop where
  languages : session.languages.Nodup
  single : ∀ language ∈ session.languages, language ∈ [Language.asm, .c, .cxx]
  preIncludes : session.preIncludeGlobal.Nodup
  includes : ∀ kind, (session.shownBy kind).Distinct

/-- Everything of the first session stands at the same place in the second one, with more
behind it at most. What the session was started with and the units to link are the same. -/
structure Grows (before after : Session) : Prop where
  root : after.root = before.root
  toolchain : after.toolchain = before.toolchain
  linkUnits : after.linkUnits = before.linkUnits
  languages : before.languages <+: after.languages
  libraries : before.libraryGlobal <+: after.libraryGlobal
  preIncludes : before.preIncludeGlobal <+: after.preIncludeGlobal
  includes : ∀ kind, (before.shownBy kind).Grows (after.shownBy kind)

theorem Grows.refl (session : Session) : session.Grows session where
  root := rfl
  toolchain := rfl
  linkUnits := rfl
  languages := List.prefix_refl _
  libraries := List.prefix_refl _
  preIncludes := List.prefix_refl _
  includes _ := .refl _

theorem Grows.trans {before between after : Session} (first : before.Grows between)
    (second : between.Grows after) : before.Grows after where
  root := second.root.trans first.root
  toolchain := second.toolchain.trans first.toolchain
  linkUnits := second.linkUnits.trans first.linkUnits
  languages := first.languages.trans second.languages
  libraries := first.libraries.trans second.libraries
  preIncludes := first.preIncludes.trans second.preIncludes
  includes kind := (first.includes kind).trans (second.includes kind)

theorem normal_fresh (root toolchain : String) : Normal { root, toolchain } where
  languages := List.nodup_nil
  single _ member := absurd member List.not_mem_nil
  preIncludes := List.nodup_nil
  includes kind := by cases kind <;> exact LanguageMap.distinct_empty

theorem Normal.note {session : Session} (normal : session.Normal) (finding : Finding) :
    (session.note finding).Normal where
  languages := by
    rw [languages_note]
    cases finding.language? with
    | none => exact normal.languages
    | some language => exact Ordered.nodup_append normal.languages _
  single := by
    rw [languages_note]
    cases finding.language? with
    | none => exact normal.single
    | some language =>
        intro found member
        rcases Ordered.mem_append.mp member with before | added
        · exact normal.single found before
        · exact Language.single_of_known added
  preIncludes := by
    rw [preIncludeGlobal_note]
    cases finding.preInclude? with
    | none => exact normal.preIncludes
    | some file => exact Ordered.nodup_insertLast normal.preIncludes file
  includes kind := by
    rw [shownBy_note]
    cases finding.includes? kind with
    | none => exact normal.includes kind
    | some includes => exact (normal.includes kind).appendPropagating includes

theorem grows_note (session : Session) {finding : Finding} (settles : finding.isLink = false) :
    session.Grows (session.note finding) := by
  have shown : ∀ kind, (session.shownBy kind).Grows ((session.note finding).shownBy kind) := by
    intro kind
    rw [shownBy_note]
    cases finding.includes? kind with
    | none => exact .refl _
    | some includes => exact LanguageMap.grows_appendPropagating _ includes
  cases finding with
  | language language =>
      rw [note, addLanguage_eq]
      exact { Grows.refl session with languages := Ordered.prefix_append _ _ }
  | preInclude file =>
      exact { Grows.refl session with preIncludes := Ordered.prefix_insertLast _ file }
  | userIncludes | componentIncludes => exact { Grows.refl session with includes := shown }
  | libraries files =>
      exact { Grows.refl session with libraries := List.prefix_append _ files }
  | linkUnit target => cases settles

/-! ## Operations -/

/-- What a session can be told from outside. -/
inductive Operation where
  /-- Sort the files of a node, and tell what comes of it. -/
  | classify (kind : NodeKind) (files : List File)
  | language (language : Language)
  | includes (kind : NodeKind) (includes : ScopeMap)
  | libraries (files : List String)
  | preInclude (file : String)
deriving Repr

def Operation.findings (root : String) : Operation → List Finding
  | .classify kind files => told root kind true files
  | .language spoken => [.language spoken]
  | .includes .group shown => [.userIncludes shown]
  | .includes .component shown => [.componentIncludes shown]
  | .libraries files => [.libraries files]
  | .preInclude file => [.preInclude file]

/-- Whether an operation gives a path of a language to nodes of a kind, for a scope. Files give
the directories that they make visible. -/
def Operation.Gives (root : String) (kind : NodeKind) (scope : Scope) (language : Language)
    (path : String) : Operation → Prop
  | .classify node files =>
      node = kind ∧ ∃ file ∈ files, file.isInclude = true ∧
        (if !files.any (·.isPlainSource) then .interface else file.scope) = scope ∧
        file.language = language ∧
        Path.anchor root
          (if file.role = .header then Path.parent file.path else Path.clean file.path) = path
  | .includes node given => node = kind ∧ path ∈ (given.get scope).get language
  | _ => False

def perform (session : Session) (operation : Operation) : Session :=
  session.noteAll (operation.findings session.root)

def performAll (session : Session) (operations : List Operation) : Session :=
  operations.foldl perform session

theorem Operation.isLink_findings (root : String) (operation : Operation) {finding : Finding}
    (member : finding ∈ operation.findings root) : finding.isLink = false := by
  cases operation with
  | classify kind files =>
      have apart := List.filter_eq_self.mp (told_withoutLinks root kind true files)
      simpa using apart finding member
  | includes kind given =>
      cases kind with
      | group | component =>
          rw [findings, List.mem_singleton] at member
          rw [member]
          rfl
  | language | libraries | preInclude =>
      rw [findings, List.mem_singleton] at member
      rw [member]
      rfl

theorem Normal.noteAll {session : Session} (normal : session.Normal) (findings : List Finding) :
    (session.noteAll findings).Normal := by
  induction findings generalizing session with
  | nil => exact normal
  | cons finding rest induction => exact induction (normal.note finding)

theorem grows_noteAll (session : Session) {findings : List Finding}
    (settle : ∀ finding ∈ findings, finding.isLink = false) :
    session.Grows (session.noteAll findings) := by
  induction findings generalizing session with
  | nil => exact .refl session
  | cons finding rest induction =>
      have first := session.grows_note (settle finding List.mem_cons_self)
      exact first.trans (induction _ fun other member =>
        settle other (List.mem_cons_of_mem finding member))

theorem grows_perform (session : Session) (operation : Operation) :
    session.Grows (session.perform operation) :=
  session.grows_noteAll fun _ => operation.isLink_findings session.root

/-! ## What is shown -/

/-- The scope maps that nodes of a kind bring with an operation. -/
def Operation.broughtBy (root : String) (kind : NodeKind) : Operation → List ScopeMap
  | .classify node files =>
      if node = kind then [(Classification.ofFiles root files).includes] else []
  | .includes node given => if node = kind then [given] else []
  | _ => []

theorem Operation.includes_findings (root : String) (kind : NodeKind) (operation : Operation) :
    (operation.findings root).filterMap (Finding.includes? kind) =
      operation.broughtBy root kind := by
  cases operation with
  | classify node files => simp [findings, broughtBy, includes_told]
  | includes node includes => cases node <;> cases kind <;> rfl
  | _ => cases kind <;> rfl

theorem Operation.gives_iff {root : String} {kind : NodeKind} {language : Language}
    {path : String} {operation : Operation} :
    (∃ includes ∈ operation.broughtBy root kind, (language, path) ∈ includes.shownPairs) ↔
      ∃ scope, scope ≠ .own ∧ operation.Gives root kind scope language path := by
  cases operation with
  | classify node files =>
      have sorted : ∀ scope, (language, path) ∈
          ((Classification.ofFiles root files).includes.get scope).pairs ↔
            ∃ file ∈ files, file.isInclude = true ∧
              (if !files.any (·.isPlainSource) then .interface else file.scope) = scope ∧
              file.language = language ∧
              Path.anchor root
                (if file.role = .header then Path.parent file.path else Path.clean file.path) =
                  path := by
        intro scope
        simp only [Classification.mem_includes_ofFiles, Prod.mk.injEq]
        rfl
      by_cases same : node = kind
      · simp only [broughtBy, Gives, same, if_true, List.mem_singleton, exists_eq_left, true_and,
          ← sorted]
        rfl
      · simp [broughtBy, Gives, same]
  | includes node includes =>
      by_cases same : node = kind
      · simp only [broughtBy, Gives, same, if_true, List.mem_singleton, exists_eq_left, true_and]
        rfl
      · simp [broughtBy, Gives, same]
  | _ => simp [broughtBy, Gives]

theorem mem_shownBy_perform {session : Session} {operation : Operation} {kind : NodeKind}
    {language : Language} {path : String} :
    path ∈ ((session.perform operation).shownBy kind).get language ↔
      path ∈ (session.shownBy kind).get language ∨
        ∃ scope, scope ≠ .own ∧ operation.Gives session.root kind scope language path := by
  have grown : (session.perform operation).shownBy kind =
      (operation.broughtBy session.root kind).foldl LanguageMap.appendPropagating
        (session.shownBy kind) := by
    rw [← Operation.includes_findings]
    exact @part_noteAll _ _ (·.shownBy kind) _ _ (shownBy_note kind) session _
  rw [grown, LanguageMap.mem_get_foldl_appendPropagating, Operation.gives_iff]

/-! ## Runs -/

theorem Normal.performAll {session : Session} (normal : session.Normal)
    (operations : List Operation) : (session.performAll operations).Normal := by
  induction operations generalizing session with
  | nil => exact normal
  | cons operation rest induction => exact induction (normal.noteAll _)

theorem grows_performAll (session : Session) (operations : List Operation) :
    session.Grows (session.performAll operations) := by
  induction operations generalizing session with
  | nil => exact .refl session
  | cons operation rest induction => exact (session.grows_perform operation).trans (induction _)

theorem mem_shownBy_performAll {session : Session} {operations : List Operation}
    {kind : NodeKind} {language : Language} {path : String} :
    path ∈ ((session.performAll operations).shownBy kind).get language ↔
      path ∈ (session.shownBy kind).get language ∨
        ∃ operation ∈ operations, ∃ scope, scope ≠ .own ∧
          operation.Gives session.root kind scope language path := by
  induction operations generalizing session with
  | nil => simp [performAll]
  | cons operation rest induction =>
      have sameRoot : (session.perform operation).root = session.root :=
        (session.grows_perform operation).root
      refine (@induction (session.perform operation)).trans ?_
      rw [mem_shownBy_perform, sameRoot, or_assoc]
      simp

end Session

/-- Whatever a session is told, it lists no language, no pre-include and no directory of a
bucket twice, and shows the directories that it was given for another scope than the own one,
and no others. Whatever it is told next, all of this stays where it is. -/
theorem session_normal_and_growing (root toolchain : String)
    (operations : List Session.Operation) :
    let session := Session.performAll { root, toolchain } operations
    session.Normal ∧
    (∀ kind language path, path ∈ (session.shownBy kind).get language ↔
      ∃ operation ∈ operations, ∃ scope, scope ≠ .own ∧
        operation.Gives root kind scope language path) ∧
    (∀ operation, session.Grows (session.perform operation)) ∧
    session.root = root ∧ session.toolchain = toolchain ∧ session.linkUnits = [] := by
  intro session
  have grown := Session.grows_performAll { root, toolchain } operations
  refine ⟨(Session.normal_fresh root toolchain).performAll operations, ?_,
    session.grows_perform, grown.root, grown.toolchain, grown.linkUnits⟩
  intro kind language path
  have nothing : path ∉ (({ root, toolchain } : Session).shownBy kind).get language := by
    cases kind <;> cases language <;> exact List.not_mem_nil
  exact Session.mem_shownBy_performAll.trans (or_iff_right nothing)

example : (Session.performAll { root := "app", toolchain := "GCC" }
    [.language .asm, .language .all, .language .c, .language .asm, .language .cAndCxx]).languages =
      [.asm, .c, .cxx] := by
  decide

end SolutionLists
