import SolutionLists.Proofs.Target.LinkOrder

namespace SolutionLists

/-! The characters of target names. A name is made of what a description calls groups,
components and sources, and is one that a target may have where each of these is made of
characters that names may hold, of delimiters, and of `@>=`. -/

namespace Target

/-! ## Names -/

/-- The characters that the name of a target may hold. -/
def isNameChar (char : Char) : Bool :=
  char.isAlphanum || char ∈ ['_', '.', '+', '-']

def IsValidName (name : String) : Prop :=
  ∀ char ∈ name.toList, isNameChar char = true

instance (name : String) : Decidable (IsValidName name) :=
  decidable_of_iff (name.toList.all isNameChar = true) List.all_eq_true

/-- The characters that identifiers of groups and components are made of. -/
def isIdentifierChar (char : Char) : Bool :=
  char.isAlphanum ||
    char ∈ ['_', '-', '+', '.', ':', '&', '@', '>', '=', '/', '(', ')', ' ']

/-- Texts that are made of `@>=`, of characters that names may hold and of delimiters. -/
inductive Nameable : List Char → Prop
  | nil : Nameable []
  | comparator {rest : List Char} (behind : Nameable rest) : Nameable ('@' :: '>' :: '=' :: rest)
  | char {first : Char} {rest : List Char} (here : isNameChar first || isDelimiter first)
      (behind : Nameable rest) : Nameable (first :: rest)

theorem Nameable.of_cons {first : Char} {rest : List Char} (whole : Nameable (first :: rest))
    (apart : ∀ behind, first = '@' → rest ≠ '>' :: '=' :: behind) :
    (isNameChar first || isDelimiter first) = true ∧ Nameable rest := by
  cases whole with
  | comparator => exact absurd rfl (apart _ rfl)
  | char here behind => exact ⟨here, behind⟩

theorem isNameChar_replaced (char : Char) :
    isNameChar (if isDelimiter char then '_' else char) =
      (isNameChar char || isDelimiter char) := by
  cases delimiter : isDelimiter char with
  | true => rw [Bool.or_true]; rfl
  | false => rw [Bool.or_false]; rfl

theorem valid_nameChars (chars : List Char) :
    (∀ char ∈ nameChars chars, isNameChar char = true) ↔ Nameable chars := by
  induction chars using nameChars.induct with
  | case1 => exact ⟨fun _ => .nil, fun _ _ member => absurd member List.not_mem_nil⟩
  | case2 rest induction =>
      rw [nameChars, List.forall_mem_cons, induction]
      constructor
      · rintro ⟨-, behind⟩
        exact .char (by decide) (.char (by decide) behind)
      · intro whole
        have further := (whole.of_cons (by simp)).2
        exact ⟨by decide, (further.of_cons (by simp)).2⟩
  | case3 rest induction =>
      rw [nameChars, List.forall_mem_cons, induction]
      constructor
      · rintro ⟨-, behind⟩
        exact .comparator behind
      · intro whole
        refine ⟨by decide, ?_⟩
        cases whole with
        | comparator behind => exact behind
        | char here behind =>
            -- The sign behind a lone `@` stands in no name.
            have sign := (behind.of_cons (by simp)).1
            exact absurd sign (by decide)
  | case4 first rest notPair notComparator induction =>
      rw [nameChars, List.forall_mem_cons, induction, isNameChar_replaced]
      · exact ⟨fun parts => .char parts.1 parts.2, fun whole => whole.of_cons notComparator⟩
      · exact notPair
      · exact notComparator

theorem valid_nameOf (identifier : String) :
    IsValidName (nameOf identifier) ↔ Nameable identifier.toList := by
  rw [IsValidName, nameOf, String.toList_ofList]
  exact valid_nameChars identifier.toList

theorem valid_append {first second : String} :
    IsValidName (first ++ second) ↔ IsValidName first ∧ IsValidName second := by
  rw [IsValidName, String.toList_append, List.forall_mem_append]
  rfl

/-- Of the characters that identifiers are made of, two are no delimiters and stand in no
name. -/
theorem nameable_char {char : Char} (inIdentifier : isIdentifierChar char = true) :
    (isNameChar char || isDelimiter char) = true ↔ char ≠ '>' ∧ char ≠ '=' := by
  cases plain : char.isAlphanum with
  | true =>
      have different : char ≠ '>' ∧ char ≠ '=' := by
        constructor <;> (rintro rfl; cases plain)
      rw [isNameChar, plain]
      exact iff_of_true rfl different
  | false =>
      have signs : ['_', '-', '+', '.', ':', '&', '@', '>', '=', '/', '(', ')', ' '].all
          (fun sign => (isNameChar sign || isDelimiter sign) = true ↔ sign ≠ '>' ∧ sign ≠ '=') =
            true := by
        decide
      rw [isIdentifierChar, plain, Bool.false_or, decide_eq_true_iff] at inIdentifier
      exact of_decide_eq_true (List.all_eq_true.mp signs char inIdentifier)

theorem Nameable.char_of_mem {chars : List Char} (whole : Nameable chars) {char : Char}
    (member : char ∈ chars) :
    (isNameChar char || isDelimiter char) = true ∨ char = '>' ∨ char = '=' := by
  induction whole with
  | nil => cases member
  | comparator behind induction =>
      have parts : char ∈ ['@', '>', '='] ∨ char ∈ _ := List.mem_append.mp member
      have signs : ['@', '>', '='].all (fun sign =>
          (isNameChar sign || isDelimiter sign) = true ∨ sign = '>' ∨ sign = '=') = true := by
        decide
      refine parts.elim (fun sign => ?_) induction
      exact of_decide_eq_true (List.all_eq_true.mp signs char sign)
  | char here behind induction =>
      rcases List.mem_cons.mp member with rfl | later
      · exact .inl here
      · exact induction later

theorem not_nameable_of_reference {chars : List Char} (reference : '$' ∈ chars) :
    ¬ Nameable chars := by
  intro whole
  have stands := whole.char_of_mem reference
  revert stands
  decide

/-! ## What targets are called after -/

/-- What the targets of a node are called after, target by target: first its own, which is
called after the node and those around it, then those of sources. -/
def identifiersOfNode (called : List String) (files : List File) : List (List String) :=
  called :: (files.filter fun file =>
    (file.isSource && !file.isTemplate) && file.hasCustomOptions).map fun file =>
      called ++ [file.path]

mutual

/-- What the targets of a group and of those below it are called after. -/
def identifiersOfGroup (around : List String) : Group → List (List String)
  | ⟨name, options, groups⟩ =>
      if hasBuildableFiles options.files || Group.anyBuildable groups then
        identifiersOfNode (around ++ [name]) options.files ++
          identifiersOfGroups (around ++ [name]) groups
      else []

def identifiersOfGroups (around : List String) : List Group → List (List String)
  | [] => []
  | group :: rest => identifiersOfGroup around group ++ identifiersOfGroups around rest

end

/-- Names in turn with what they are called after, each valid where all of that is fit for
names. -/
abbrev ValidWhereNameable (names : List String) (identifiers : List (List String)) : Prop :=
  List.Forall₂
    (fun name called => IsValidName name ↔ ∀ identifier ∈ called, Nameable identifier.toList)
    names identifiers

theorem forall_nameable_append {called : List String} {identifier : String} :
    (∀ other ∈ called ++ [identifier], Nameable other.toList) ↔
      (∀ other ∈ called, Nameable other.toList) ∧ Nameable identifier.toList := by
  rw [List.forall_mem_append, List.forall_mem_singleton]

theorem valid_unitName {node path : String} {called : List String}
    (named : IsValidName node ↔ ∀ identifier ∈ called, Nameable identifier.toList) :
    IsValidName (unitName node path) ↔
      ∀ identifier ∈ called ++ [path], Nameable identifier.toList := by
  have bar : IsValidName "_" := by decide
  rw [unitName, valid_append, valid_append, valid_nameOf, named, forall_nameable_append,
    and_iff_left bar]

theorem valid_targets {site : Site} {called : List String}
    (named : IsValidName site.target ↔ ∀ identifier ∈ called, Nameable identifier.toList) :
    ValidWhereNameable site.targets (identifiersOfNode called site.options.files) := by
  rw [Site.targets_eq, Site.unitNames, Site.sources, List.filter_filter, identifiersOfNode]
  refine .cons named ?_
  rw [List.forall₂_map_left_iff, List.forall₂_map_right_iff]
  have same : (fun file : File =>
      file.hasCustomOptions && (file.isSource && !file.isTemplate)) =
      fun file => (file.isSource && !file.isTemplate) && file.hasCustomOptions := by
    funext file
    exact Bool.and_comm _ _
  rw [same]
  exact List.forall₂_same.mpr fun file _ => valid_unitName named

mutual

theorem valid_sitesOfGroup (around : List Branch) (outer : List String) (name : String) :
    (group : Group) →
    (IsValidName name ↔ ∀ identifier ∈ outer ++ [group.name], Nameable identifier.toList) →
    ValidWhereNameable ((sitesOfGroup around name group).flatMap Site.targets)
      (identifiersOfGroup outer group)
  | ⟨title, options, groups⟩, named => by
      rw [sitesOfGroup, identifiersOfGroup]
      split
      case isFalse => exact .nil
      case isTrue =>
        have bar : IsValidName "_" := by decide
        let site : Site := ⟨⟨Node.ofGroup name ⟨title, options, groups⟩, groups⟩, around⟩
        rw [List.flatMap_cons]
        have here : ValidWhereNameable site.targets
            (identifiersOfNode (outer ++ [title]) site.options.files) :=
          valid_targets named
        refine List.rel_append here ?_
        refine valid_sitesOfGroups _ (outer ++ [title]) (name ++ "_") groups ?_
        rw [valid_append, and_iff_left bar]
        exact named

theorem valid_sitesOfGroups (around : List Branch) (outer : List String) (start : String) :
    (groups : List Group) →
    (IsValidName start ↔ ∀ identifier ∈ outer, Nameable identifier.toList) →
    ValidWhereNameable ((sitesOfGroups around start groups).flatMap Site.targets)
      (identifiersOfGroups outer groups)
  | [], _ => by
      rw [sitesOfGroups, identifiersOfGroups]
      exact .nil
  | group :: rest, named => by
      rw [sitesOfGroups, identifiersOfGroups, List.flatMap_append]
      refine List.rel_append ?_ (valid_sitesOfGroups around outer start rest named)
      refine valid_sitesOfGroup around outer (start ++ nameOf group.name) group ?_
      rw [valid_append, valid_nameOf, named, forall_nameable_append]

end

end Target

/-- What the targets of a context are called after, target by target. -/
def Context.identifiers (context : Context) : List (List String) :=
  Target.identifiersOfGroups [] context.groups ++
    (context.components.filter (hasBuildableFiles ·.options.files)).flatMap fun component =>
      Target.identifiersOfNode [component.identifier] component.options.files

open Target

theorem valid_build (setting : Setting) (context : Context) :
    ValidWhereNameable
      ((Tree.build setting context).directives.filterMap Directive.definedTarget?)
      context.identifiers := by
  have built : (Tree.build setting context).targets =
      Target.context :: context.sites.flatMap Site.targets :=
    targets_build context
  have listed : (Tree.build setting context).directives.filterMap Directive.definedTarget? =
      context.sites.flatMap Site.targets :=
    (List.cons.inj built).2
  have start : IsValidName "Group_" := by decide
  rw [listed, Context.sites, List.flatMap_append, Context.identifiers]
  refine List.rel_append ?_ ?_
  · refine valid_sitesOfGroups [] [] "Group_" context.groups ?_
    exact iff_of_true start fun _ member => absurd member List.not_mem_nil
  · rw [Context.componentSites, List.flatMap_map]
    induction context.components.filter (hasBuildableFiles ·.options.files) with
    | nil => exact .nil
    | cons component rest induction =>
        let site : Site := ⟨⟨Node.ofComponent component, []⟩, []⟩
        have named : IsValidName site.target ↔
            ∀ identifier ∈ [component.identifier], Nameable identifier.toList := by
          rw [List.forall_mem_singleton]
          exact valid_nameOf component.identifier
        exact List.rel_append (valid_targets named) induction

/-- The name of each target of a context is valid where every identifier that it is called
after is made of `@>=`, of characters that names may hold and of delimiters. Of the characters
of identifiers only `>` and `=` are left out by this when they stand in no `@>=`, and a path
behind a variable is never fit for a name. -/
theorem target_names_valid_where_nameable (setting : Setting) (context : Context) :
    List.Forall₂
      (fun name called => IsValidName name ↔ ∀ identifier ∈ called, Nameable identifier.toList)
      ((Tree.build setting context).directives.filterMap Directive.definedTarget?)
      context.identifiers ∧
    (∀ char, isIdentifierChar char = true →
      ((isNameChar char || isDelimiter char) = true ↔ char ≠ '>' ∧ char ≠ '=')) ∧
    ∀ name rest, ¬ Nameable (Path.variableReference name ++ rest).toList := by
  refine ⟨valid_build setting context, fun _ => nameable_char, fun name rest => ?_⟩
  apply not_nameable_of_reference
  simp [Path.variableReference]

/-- A group with a source of its own unit, beside a component with a version constraint. -/
private def versionedComponent : Context where
  groups :=
    [{ name := "Source Files (GCC)"
       options :=
         { files :=
             [{ path := "./a+b/unit.c", category := "sourceC", define := [⟨"UNIT", none⟩] }] } }]
  components :=
    [{ identifier := "ARM::CMSIS:CORE@>=6.0.0"
       options := { files := [{ path := "./core.c", category := "sourceC" }] } }]

theorem target_names_valid_where_nameable_versioned :
    let names := (Tree.build ⟨"app", "GCC"⟩ versionedComponent).directives.filterMap
      Directive.definedTarget?
    names = ["Group_Source_Files__GCC_", "Group_Source_Files__GCC____a+b_unit_c",
      "ARM_CMSIS_CORE_6_0_0"] ∧
    versionedComponent.identifiers =
      [["Source Files (GCC)"], ["Source Files (GCC)", "./a+b/unit.c"],
        ["ARM::CMSIS:CORE@>=6.0.0"]] ∧
    ValidWhereNameable names versionedComponent.identifiers ∧
    isIdentifierChar '@' = true ∧ (isNameChar '@' || isDelimiter '@') = true := by
  have valid := target_names_valid_where_nameable ⟨"app", "GCC"⟩ versionedComponent
  exact ⟨by decide +kernel, by decide +kernel, valid.1, by decide,
    (valid.2.1 '@' (by decide)).mpr (by decide)⟩

/-! ## Identifiers that no name can be made of -/

/-- Whether a text is one that groups and components are called with. -/
def IsIdentifier (text : String) : Prop :=
  ∀ char ∈ text.toList, isIdentifierChar char = true

instance (text : String) : Decidable (IsIdentifier text) :=
  decidable_of_iff (text.toList.all isIdentifierChar = true) List.all_eq_true

/-- Whether everything that targets are called after is made of the characters of identifiers.
The path of a source may begin with a variable. -/
structure Context.CalledByIdentifiers (context : Context) : Prop where
  groups : ∀ group ∈ Group.allWithBelow context.groups, IsIdentifier group.name
  components : ∀ component ∈ context.components, IsIdentifier component.identifier
  sources : ∀ options ∈ context.nodeOptions, ∀ file ∈ options.files,
    file.isBuiltSource = true → file.hasCustomOptions = true →
      IsIdentifier file.path ∨ ∃ name rest,
        file.path = Path.variableReference name ++ "/" ++ rest ∧ IsIdentifier rest

private def packSource : File where
  path := Path.variableReference "CMSIS_PACK_ROOT" ++ "/unit.c"
  category := "sourceC"
  define := [⟨"UNIT", none⟩]

/-- A group that is called with a lone `=`, and a source that lies behind a variable. -/
private def signedGroup : Context where
  groups :=
    [{ name := "App=Core"
       options := { files := [{ path := "./main.c", category := "sourceC" }, packSource] } }]

private theorem calledByIdentifiers_signedGroup : signedGroup.CalledByIdentifiers where
  groups := by decide +kernel
  components := by decide +kernel
  sources options member file inside built custom := by
    have only : ∀ options ∈ signedGroup.nodeOptions, ∀ file ∈ options.files,
        file.hasCustomOptions = true → file = packSource := by decide +kernel
    rw [only options member file inside custom]
    refine .inr ⟨"CMSIS_PACK_ROOT", "unit.c", by decide, ?_⟩
    decide

/-- A lone `=`, and the signs of a variable, get into names. -/
theorem identifier_signs_in_names :
    ¬ (∀ (setting : Setting) (context : Context), context.CalledByIdentifiers →
        ∀ name ∈ (Tree.build setting context).directives.filterMap Directive.definedTarget?,
          IsValidName name) ∧
    (Tree.build ⟨"app", "GCC"⟩ signedGroup).directives.filterMap Directive.definedTarget? =
      ["Group_App=Core",
        "Group_App=Core_" ++ Path.variableReference "CMSIS_PACK_ROOT" ++ "_unit_c"] := by
  have names : (Tree.build ⟨"app", "GCC"⟩ signedGroup).directives.filterMap
      Directive.definedTarget? = ["Group_App=Core",
        "Group_App=Core_" ++ Path.variableReference "CMSIS_PACK_ROOT" ++ "_unit_c"] := by
    decide +kernel
  refine ⟨fun valid => ?_, names⟩
  have found := valid ⟨"app", "GCC"⟩ signedGroup calledByIdentifiers_signedGroup
  rw [names] at found
  have sign : ¬ IsValidName "Group_App=Core" := by decide
  exact sign (found _ List.mem_cons_self)

end SolutionLists
