import SolutionLists.Proofs.Version.Order
import SolutionLists.Toolchain.Catalog

namespace SolutionLists.Toolchain

/-! The choice of a toolchain: the newest installation that qualifies, with the newest
configuration that it reaches. Among equal versions the first in the list is taken, so
that the order of a list decides nothing else. -/

/-! ## The newest of a list -/

/-- The newest of the toolchains that are fit, and the first of its version. -/
structure IsNewest (toolchains : List Toolchain) (fit : Toolchain → Prop)
    (chosen : Toolchain) : Prop where
  isFit : fit chosen
  newest : ∀ other ∈ toolchains, fit other → other.version ≤ chosen.version
  first : ∃ before after, toolchains = before ++ chosen :: after ∧
    ∀ other ∈ before, fit other → other.version ≠ chosen.version

section Newest

variable {toolchains others : List Toolchain} {fit : Toolchain → Prop} {chosen other : Toolchain}

theorem IsNewest.mem (newest : IsNewest toolchains fit chosen) : chosen ∈ toolchains := by
  rcases newest.first with ⟨before, after, rfl, _⟩
  exact List.mem_append_right before List.mem_cons_self

theorem IsNewest.version_eq (newest : IsNewest toolchains fit chosen)
    (alsoNewest : IsNewest others fit other)
    (same : ∀ toolchain, toolchain ∈ toolchains ↔ toolchain ∈ others) :
    chosen.version = other.version :=
  le_antisymm (alsoNewest.newest chosen ((same chosen).mp newest.mem) newest.isFit)
    (newest.newest other ((same other).mpr alsoNewest.mem) alsoNewest.isFit)

theorem IsNewest.find?_eq [DecidablePred fit] (newest : IsNewest toolchains fit chosen) :
    toolchains.find? (fun other => fit other ∧ other.version = chosen.version) = some chosen := by
  rcases newest.first with ⟨before, after, parts, earlier⟩
  refine List.find?_eq_some_iff_append.mpr ⟨?_, before, after, parts, fun other member => ?_⟩
  · exact decide_eq_true ⟨newest.isFit, rfl⟩
  · rw [Bool.not_eq_true', decide_eq_false_iff_not]
    rintro ⟨isFit, same⟩
    exact earlier other member isFit same

theorem IsNewest.ofFind [DecidablePred fit] (isFit : fit chosen)
    (newest : ∀ other ∈ toolchains, fit other → other.version ≤ chosen.version)
    (found : toolchains.find? (fun other => fit other ∧ other.version = chosen.version) =
      some chosen) : IsNewest toolchains fit chosen := by
  rcases List.find?_eq_some_iff_append.mp found with ⟨_, before, after, parts, earlier⟩
  refine ⟨isFit, newest, before, after, parts, fun other member otherFit same => ?_⟩
  have passed := earlier other member
  rw [Bool.not_eq_true', decide_eq_false_iff_not] at passed
  exact passed ⟨otherFit, same⟩

instance [DecidablePred fit] : Decidable (IsNewest toolchains fit chosen) :=
  decidable_of_iff
    (fit chosen ∧ (∀ other ∈ toolchains, fit other → other.version ≤ chosen.version) ∧
      toolchains.find? (fun other => fit other ∧ other.version = chosen.version) = some chosen)
    ⟨fun parts => .ofFind parts.1 parts.2.1 parts.2.2,
      fun newest => ⟨newest.isFit, newest.newest, newest.find?_eq⟩⟩

theorem IsNewest.unique (newest : IsNewest toolchains fit chosen)
    (alsoNewest : IsNewest toolchains fit other) : chosen = other := by
  classical
  have found := newest.find?_eq
  rw [newest.version_eq alsoNewest fun _ => Iff.rfl, alsoNewest.find?_eq] at found
  exact (Option.some.inj found).symm

end Newest

/-! ## Sorting -/

def standsBefore (first second : Toolchain) : Bool :=
  decide (second.version ≤ first.version)

theorem standsBefore_trans (first second third : Toolchain)
    (left : standsBefore first second = true) (right : standsBefore second third = true) :
    standsBefore first third = true :=
  decide_eq_true (le_trans (of_decide_eq_true right) (of_decide_eq_true left))

theorem standsBefore_total (first second : Toolchain) :
    (standsBefore first second || standsBefore second first) = true := by
  rw [Bool.or_eq_true, standsBefore, standsBefore, decide_eq_true_eq, decide_eq_true_eq]
  exact le_total second.version first.version

theorem mem_newestFirst {toolchains : List Toolchain} {toolchain : Toolchain} :
    toolchain ∈ newestFirst toolchains ↔ toolchain ∈ toolchains :=
  List.mem_mergeSort

theorem pairwise_newestFirst (toolchains : List Toolchain) :
    (newestFirst toolchains).Pairwise fun newer older => older.version ≤ newer.version :=
  (List.pairwise_mergeSort standsBefore_trans standsBefore_total toolchains).imp
    of_decide_eq_true

theorem filter_newestFirst (toolchains : List Toolchain) (version : Version)
    (fit : Toolchain → Bool) :
    (newestFirst toolchains).filter (fun other => fit other && other.version = version) =
      toolchains.filter fun other => fit other && other.version = version := by
  let kept : Toolchain → Bool := fun other => fit other && other.version = version
  have ofVersion : ∀ other ∈ toolchains.filter kept, other.version = version := by
    intro other member
    have passed := (List.mem_filter.mp member).2
    rw [Bool.and_eq_true, decide_eq_true_eq] at passed
    exact passed.2
  have sorted : (toolchains.filter kept).Pairwise fun first second =>
      standsBefore first second = true :=
    List.pairwise_of_forall_mem_list fun first firstMember second secondMember =>
      decide_eq_true (by rw [ofVersion first firstMember, ofVersion second secondMember])
  have contained : (toolchains.filter kept).Sublist (newestFirst toolchains) :=
    List.sublist_mergeSort standsBefore_trans standsBefore_total sorted List.filter_sublist
  have filtered := contained.filter kept
  rw [List.filter_filter] at filtered
  simp only [Bool.and_self] at filtered
  have length := ((List.mergeSort_perm toolchains standsBefore).filter kept).length_eq
  exact (filtered.eq_of_length length.symm).symm

theorem find?_newestFirst {toolchains : List Toolchain} {fit : Toolchain → Bool}
    {chosen : Toolchain} :
    (newestFirst toolchains).find? fit = some chosen ↔
      IsNewest toolchains (fun other => fit other = true) chosen := by
  have newest : ∀ {found : Toolchain}, (newestFirst toolchains).find? fit = some found →
      IsNewest toolchains (fun other => fit other = true) found := by
    intro found isFound
    rcases List.find?_eq_some_iff_append.mp isFound with ⟨isFit, before, after, parts, unfit⟩
    have sorted := pairwise_newestFirst toolchains
    rw [parts] at sorted
    have later := (List.pairwise_cons.mp (List.pairwise_append.mp sorted).2.1).1
    -- Among those of its version it is the first before the sorting as well.
    have ofVersion : toolchains.find? (fun other => fit other && other.version = found.version) =
        some found := by
      rw [← List.head?_filter, ← filter_newestFirst, List.head?_filter, parts]
      refine List.find?_eq_some_iff_append.mpr ⟨by simp [isFit], before, after, rfl, ?_⟩
      intro other member
      have notFit := unfit other member
      simp_all
    refine .ofFind isFit (fun other member otherFit => ?_) (by simpa using ofVersion)
    rw [← mem_newestFirst, parts] at member
    rcases List.mem_append.mp member with earlier | here
    · have notFit := unfit other earlier
      rw [otherFit] at notFit
      cases notFit
    · rcases List.mem_cons.mp here with rfl | behind
      · exact le_refl _
      · exact later other behind
  constructor
  · exact newest
  · intro isNewest
    cases found : (newestFirst toolchains).find? fit with
    | none =>
        have unfit := List.find?_eq_none.mp found chosen (mem_newestFirst.mpr isNewest.mem)
        exact absurd isNewest.isFit unfit
    | some other => rw [(newest found).unique isNewest]

theorem versions_newestFirst {toolchains others : List Toolchain}
    (permuted : toolchains.Perm others) :
    (newestFirst toolchains).map (·.version) = (newestFirst others).map (·.version) := by
  have descending : ∀ list : List Toolchain,
      ((newestFirst list).map (·.version)).Pairwise fun newer older => older ≤ newer :=
    fun list => List.pairwise_map.mpr (pairwise_newestFirst list)
  refine List.Perm.eq_of_pairwise (fun _ _ _ _ first second => le_antisymm second first)
    (descending toolchains) (descending others) ?_
  exact (((List.mergeSort_perm toolchains standsBefore).trans permuted).trans
    (List.mergeSort_perm others standsBefore).symm).map _

/-! ## Toolchains of one name -/

theorem mem_named {name : String} {toolchains : List Toolchain} {toolchain : Toolchain} :
    toolchain ∈ named name toolchains ↔ toolchain ∈ toolchains ∧ toolchain.name = name := by
  rw [named, List.mem_filter, decide_eq_true_iff]

theorem named_eq_nil {name : String} {toolchains : List Toolchain} :
    named name toolchains = [] ↔ ∀ toolchain ∈ toolchains, toolchain.name ≠ name := by
  simp [named]

theorem isNewest_named {name : String} {toolchains : List Toolchain} {fit : Toolchain → Prop}
    {chosen : Toolchain} :
    IsNewest (named name toolchains) fit chosen ↔
      IsNewest toolchains (fun other => other.name = name ∧ fit other) chosen := by
  classical
  constructor
  · intro newest
    have member := mem_named.mp newest.mem
    have found := newest.find?_eq
    rw [named, List.find?_filter] at found
    refine .ofFind ⟨member.2, newest.isFit⟩ (fun other otherMember fits => ?_) ?_
    · exact newest.newest other (mem_named.mpr ⟨otherMember, fits.1⟩) fits.2
    · simpa [and_assoc] using found
  · intro newest
    have found := newest.find?_eq
    refine .ofFind newest.isFit.2 (fun other otherMember fits => ?_) ?_
    · have parts := mem_named.mp otherMember
      exact newest.newest other parts.1 ⟨parts.2, fits⟩
    · rw [named, List.find?_filter]
      simpa [and_assoc] using found

/-! ## Installations -/

/-- Whether a configuration is one for an installation of a name. -/
def IsReached (name : String) (installation config : Toolchain) : Prop :=
  config.name = name ∧ config.version ≤ installation.version

instance (name : String) (installation config : Toolchain) :
    Decidable (IsReached name installation config) :=
  inferInstanceAs (Decidable (_ ∧ _))

/-- Whether an installation of the required name is accepted and reaches a
configuration. -/
structure Qualifies (requirement : Requirement) (configs : List Toolchain)
    (installation : Toolchain) : Prop where
  named : installation.name = requirement.name
  accepted : ∀ constraint, requirement.constraint = some constraint →
    constraint.accepts installation.version = true
  reaches : ∃ config ∈ configs, IsReached requirement.name installation config

theorem accepts_iff {requirement : Requirement} {version : Version} :
    requirement.accepts version = true ↔
      ∀ constraint, requirement.constraint = some constraint →
        constraint.accepts version = true := by
  rw [Requirement.accepts]
  cases requirement.constraint <;> simp

section Resolve

variable {requirement : Requirement} {configs registered : List Toolchain}
  {installation config : Toolchain}

instance : Decidable (Qualifies requirement configs installation) :=
  decidable_of_iff
    (installation.name = requirement.name ∧ requirement.accepts installation.version = true ∧
      ∃ config ∈ configs, IsReached requirement.name installation config)
    ⟨fun parts => ⟨parts.1, accepts_iff.mp parts.2.1, parts.2.2⟩,
      fun fits => ⟨fits.named, accepts_iff.mpr fits.accepted, fits.reaches⟩⟩

theorem configFor_eq_some {name : String} :
    configFor (named name configs) installation = some config ↔
      IsNewest configs (IsReached name installation) config := by
  rw [configFor, find?_newestFirst, isNewest_named]
  simp only [decide_eq_true_eq]
  rfl

theorem isSome_configFor {name : String} :
    (configFor (named name configs) installation).isSome = true ↔
      ∃ config ∈ configs, IsReached name installation config := by
  simp only [configFor, List.find?_isSome, mem_newestFirst, mem_named, decide_eq_true_eq,
    IsReached, and_assoc]

theorem findSome?_pair {α β : Type} {values : List α} {passes : α → Bool}
    {answer : α → Option β} {value : α} {result : β} :
    values.findSome? (fun value =>
        if passes value then (answer value).map fun result => (value, result) else none) =
          some (value, result) ↔
      values.find? (fun value => passes value && (answer value).isSome) = some value ∧
        answer value = some result := by
  induction values with
  | nil => simp
  | cons head tail induction =>
      rw [List.findSome?_cons, List.find?_cons]
      by_cases passed : passes head
      · cases answered : answer head with
        | none => simpa [passed] using induction
        | some found =>
            simp only [passed, if_true, Option.map_some, Option.isSome_some, Bool.and_self,
              Option.some.injEq, Prod.mk.injEq]
            constructor
            · rintro ⟨rfl, rfl⟩
              exact ⟨rfl, answered⟩
            · rintro ⟨rfl, same⟩
              exact ⟨rfl, Option.some.inj (answered.symm.trans same)⟩
      · simpa [passed] using induction

variable (requirement configs registered) in
/-- The first installation from the newest on that qualifies, with its configuration. -/
def choice? : Option (Toolchain × Toolchain) :=
  (newestFirst (named requirement.name registered)).findSome? fun installation =>
    if requirement.accepts installation.version then
      (configFor (named requirement.name configs) installation).map fun config =>
        (installation, config)
    else none

theorem resolve_eq :
    resolve requirement configs registered =
      if named requirement.name configs = [] then .error (.noConfig requirement.name)
      else
        match choice? requirement configs registered with
        | some choice => .ok choice
        | none =>
            .error (.noCompatible requirement.name (requirement.constraint.map (·.source))
              ((newestFirst (named requirement.name registered)).map (·.version))) := rfl

theorem qualifies_iff :
    Qualifies requirement configs installation ↔
      installation.name = requirement.name ∧
        (requirement.accepts installation.version &&
          (configFor (named requirement.name configs) installation).isSome) = true := by
  rw [Bool.and_eq_true, accepts_iff, isSome_configFor]
  exact ⟨fun fits => ⟨fits.named, fits.accepted, fits.reaches⟩,
    fun parts => ⟨parts.1, parts.2.1, parts.2.2⟩⟩

theorem choice?_eq_some :
    choice? requirement configs registered = some (installation, config) ↔
      IsNewest registered (Qualifies requirement configs) installation ∧
        IsNewest configs (IsReached requirement.name installation) config := by
  rw [choice?, findSome?_pair, find?_newestFirst, isNewest_named, configFor_eq_some]
  simp only [← qualifies_iff]

theorem choice?_eq_none :
    choice? requirement configs registered = none ↔
      ∀ installation ∈ registered, ¬ Qualifies requirement configs installation := by
  rw [choice?, List.findSome?_eq_none_iff]
  simp only [mem_newestFirst, mem_named, qualifies_iff, Bool.and_eq_true, not_and, and_imp]
  refine forall_congr' fun installation => forall_congr' fun _ => forall_congr' fun _ => ?_
  by_cases accepted : requirement.accepts installation.version <;> simp [accepted]

theorem named_ne_nil
    (reached : ∃ config ∈ configs, IsReached requirement.name installation config) :
    named requirement.name configs ≠ [] := by
  rcases reached with ⟨config, member, sameName, _⟩
  exact List.ne_nil_of_mem (mem_named.mpr ⟨member, sameName⟩)

theorem resolve_eq_ok :
    resolve requirement configs registered = .ok (installation, config) ↔
      IsNewest registered (Qualifies requirement configs) installation ∧
        IsNewest configs (IsReached requirement.name installation) config := by
  rw [← choice?_eq_some, resolve_eq]
  split
  case isTrue empty =>
    refine ⟨(fun impossible => nomatch impossible), fun found => ?_⟩
    exact absurd empty (named_ne_nil (choice?_eq_some.mp found).1.isFit.reaches)
  case isFalse =>
    cases choice? requirement configs registered <;> simp

theorem resolve_eq_error {error : ToolchainError} :
    resolve requirement configs registered = .error error ↔
      (∀ installation ∈ registered, ¬ Qualifies requirement configs installation) ∧
        error =
          if named requirement.name configs = [] then .noConfig requirement.name
          else .noCompatible requirement.name (requirement.constraint.map (·.source))
            ((newestFirst (named requirement.name registered)).map (·.version)) := by
  rw [← choice?_eq_none, resolve_eq]
  split
  case isTrue empty =>
    have none : choice? requirement configs registered = none :=
      choice?_eq_none.mpr fun _ _ fits => named_ne_nil fits.reaches empty
    simp [none, eq_comm]
  case isFalse =>
    cases choice? requirement configs registered <;> simp [eq_comm]

end Resolve

/-! ## Other orders -/

section Permuted

variable {requirement : Requirement} {configs otherConfigs registered otherRegistered :
  List Toolchain}

theorem qualifies_perm (sameConfigs : configs.Perm otherConfigs) :
    Qualifies requirement configs = Qualifies requirement otherConfigs := by
  funext installation
  have reaches : (∃ config ∈ configs, IsReached requirement.name installation config) ↔
      ∃ config ∈ otherConfigs, IsReached requirement.name installation config := by
    simp only [sameConfigs.mem_iff]
  exact propext ⟨fun fit => ⟨fit.named, fit.accepted, reaches.mp fit.reaches⟩,
    fun fit => ⟨fit.named, fit.accepted, reaches.mpr fit.reaches⟩⟩

theorem versions_perm (sameConfigs : configs.Perm otherConfigs)
    (sameRegistered : registered.Perm otherRegistered) {choice other : Toolchain × Toolchain}
    (chosen : resolve requirement configs registered = .ok choice)
    (otherChosen : resolve requirement otherConfigs otherRegistered = .ok other) :
    choice.1.version = other.1.version ∧ choice.2.version = other.2.version := by
  have newest := resolve_eq_ok.mp chosen
  have otherNewest := resolve_eq_ok.mp otherChosen
  rw [← qualifies_perm sameConfigs] at otherNewest
  have installations := newest.1.version_eq otherNewest.1 fun _ => sameRegistered.mem_iff
  have reached : IsReached requirement.name other.1 = IsReached requirement.name choice.1 := by
    funext config
    rw [IsReached, IsReached, installations]
  rw [reached] at otherNewest
  exact ⟨installations, newest.2.version_eq otherNewest.2 fun _ => sameConfigs.mem_iff⟩

theorem refused_perm (sameConfigs : configs.Perm otherConfigs)
    (sameRegistered : registered.Perm otherRegistered) {error : ToolchainError}
    (refused : resolve requirement configs registered = .error error) :
    resolve requirement otherConfigs otherRegistered = .error error := by
  rcases resolve_eq_error.mp refused with ⟨unfit, rfl⟩
  rw [qualifies_perm sameConfigs] at unfit
  refine resolve_eq_error.mpr ⟨fun installation member =>
    unfit installation (sameRegistered.mem_iff.mpr member), ?_⟩
  have noConfig : named requirement.name configs = [] ↔
      named requirement.name otherConfigs = [] := by
    simp only [named_eq_nil, sameConfigs.mem_iff]
  have versions : (newestFirst (named requirement.name registered)).map (·.version) =
      (newestFirst (named requirement.name otherRegistered)).map (·.version) :=
    versions_newestFirst (sameRegistered.filter _)
  simp only [noConfig, versions]

theorem resolve_perm (sameConfigs : configs.Perm otherConfigs)
    (sameRegistered : registered.Perm otherRegistered) :
    (resolve requirement configs registered).map (fun choice =>
        (choice.1.version, choice.2.version)) =
      (resolve requirement otherConfigs otherRegistered).map fun choice =>
        (choice.1.version, choice.2.version) := by
  cases chosen : resolve requirement configs registered with
  | error error => rw [refused_perm sameConfigs sameRegistered chosen]
  | ok choice =>
      cases otherChosen : resolve requirement otherConfigs otherRegistered with
      | error error =>
          rw [refused_perm sameConfigs.symm sameRegistered.symm otherChosen] at chosen
          cases chosen
      | ok other =>
          have same := versions_perm sameConfigs sameRegistered chosen otherChosen
          exact congrArg Except.ok (Prod.ext same.1 same.2)

end Permuted

/-- The newest installation that qualifies is chosen, with the newest configuration that it
reaches. Where none qualifies, the reason says whether there is a configuration at all, and
if so which versions are registered. The order of the lists decides among equal versions
only. -/
theorem resolve_chooses_newest (requirement : Requirement) (configs registered : List Toolchain) :
    ((∃ choice, resolve requirement configs registered = .ok choice) ↔
      ∃ installation ∈ registered, Qualifies requirement configs installation) ∧
    (∀ installation config,
      resolve requirement configs registered = .ok (installation, config) ↔
        IsNewest registered (Qualifies requirement configs) installation ∧
          IsNewest configs (IsReached requirement.name installation) config) ∧
    (∀ error, resolve requirement configs registered = .error error →
      (error = .noConfig requirement.name ∧
        ∀ config ∈ configs, config.name ≠ requirement.name) ∨
      ∃ versions : List Version,
        error = .noCompatible requirement.name (requirement.constraint.map (·.source)) versions ∧
        (∃ config ∈ configs, config.name = requirement.name) ∧
        versions.Perm ((registered.filter (·.name = requirement.name)).map (·.version)) ∧
        versions.Pairwise fun newer older => older ≤ newer) ∧
    ∀ otherConfigs otherRegistered : List Toolchain,
      configs.Perm otherConfigs → registered.Perm otherRegistered →
      (resolve requirement configs registered).map (fun choice =>
          (choice.1.version, choice.2.version)) =
        (resolve requirement otherConfigs otherRegistered).map fun choice =>
          (choice.1.version, choice.2.version) := by
  refine ⟨?_, fun installation config => resolve_eq_ok, ?_, fun _ _ => resolve_perm⟩
  · constructor
    · rintro ⟨⟨installation, config⟩, chosen⟩
      have newest := (resolve_eq_ok.mp chosen).1
      exact ⟨installation, newest.mem, newest.isFit⟩
    · rintro ⟨installation, member, fits⟩
      cases result : resolve requirement configs registered with
      | ok choice => exact ⟨choice, rfl⟩
      | error error => exact absurd fits ((resolve_eq_error.mp result).1 installation member)
  · intro error refused
    rcases resolve_eq_error.mp refused with ⟨_, rfl⟩
    split
    case isTrue empty => exact .inl ⟨rfl, named_eq_nil.mp empty⟩
    case isFalse some =>
      rcases List.exists_mem_of_ne_nil _ some with ⟨config, member⟩
      refine .inr ⟨_, rfl, ⟨config, mem_named.mp member⟩, ?_, ?_⟩
      · exact (List.mergeSort_perm _ standsBefore).map _
      · exact List.pairwise_map.mpr (pairwise_newestFirst _)

private def compilerAt (major minor : Nat) (path : String) : Toolchain where
  name := "GCC"
  version := { major, minor, patch := 0 }
  path

/-- The newest installation is beyond the constraint, the oldest reaches no configuration,
and one version is registered twice. -/
theorem resolve_chooses_newest_within :
    let constraint : Version.Constraint :=
      { source := "<14", range := .below { major := 14, minor := 0, patch := 0 } }
    let requirement : Requirement := { name := "GCC", constraint := some constraint }
    let configs := [compilerAt 10 3 "a", compilerAt 12 2 "b", compilerAt 14 2 "c"]
    let registered :=
      [compilerAt 9 1 "old", compilerAt 13 3 "first", compilerAt 14 2 "new",
        compilerAt 13 3 "second"]
    resolve requirement configs registered = .ok (compilerAt 13 3 "first", compilerAt 12 2 "b") ∧
      IsNewest registered (Qualifies requirement configs) (compilerAt 13 3 "first") ∧
      IsNewest configs (IsReached "GCC" (compilerAt 13 3 "first")) (compilerAt 12 2 "b") := by
  intro constraint requirement configs registered
  have newest : IsNewest registered (Qualifies requirement configs) (compilerAt 13 3 "first") ∧
      IsNewest configs (IsReached "GCC" (compilerAt 13 3 "first")) (compilerAt 12 2 "b") := by
    decide
  exact ⟨((resolve_chooses_newest requirement configs registered).2.1 _ _).mpr newest, newest⟩

end SolutionLists.Toolchain
