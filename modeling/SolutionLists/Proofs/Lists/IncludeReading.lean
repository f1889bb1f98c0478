import SolutionLists.Lists.Statement
import SolutionLists.Proofs.LanguageMap
import SolutionLists.Proofs.Text

namespace SolutionLists

/-! The statement about the include directories of a target as it is read, line by line: what
counts for a directory is the scope keyword in front of it and the condition around it. -/

theorem Lines.pieces_text {lines : Lines} (oneLine : ∀ line ∈ lines, '\n' ∉ line.toList) :
    Text.pieces '\n' lines.text = "" :: lines := by
  have split : ∀ front : List Char, '\n' ∉ front →
      (front ++ lines.text.toList).splitOn '\n' = front :: lines.map String.toList := by
    induction lines with
    | nil =>
        intro front inside
        simpa [Lines.text] using List.splitOn_eq_singleton inside
    | cons line rest induction =>
        intro front inside
        have chars : (Lines.text (line :: rest)).toList =
            '\n' :: (line.toList ++ (Lines.text rest).toList) := by
          simp [Lines.text]
        rw [chars, List.splitOn_append_cons_self_of_not_mem inside,
          induction (fun other member => oneLine other (List.mem_cons_of_mem line member))
            line.toList (oneLine line List.mem_cons_self), List.map_cons]
  have whole := split [] List.not_mem_nil
  rw [List.nil_append] at whole
  rw [Text.pieces, whole]
  simp

namespace Lists

/-! ## Lines of arguments -/

/-- What an argument stands for. -/
inductive IncludeSource where
  | directory (path : String)
  /-- The directories that another target shows. -/
  | shownBy (target : String)
deriving DecidableEq, Repr

inductive IncludeLine where
  | keyword (scope : Scope)
  | condition (language : Language)
  | conditionEnd
  | argument (source : IncludeSource)
  | statementEnd
deriving DecidableEq, Repr

def unindented (line : String) : String :=
  String.ofList (line.toList.dropWhile (· = ' '))

/-- The text between two others, where no double quote stands in it. -/
def between? (start ending text : String) : Option String :=
  ((Text.stripStart? text start).bind (Text.stripEnd? · ending)).filter
    fun inner => '"' ∉ inner.toList

namespace IncludeLine

def ofText? (line : String) : Option IncludeLine :=
  let text := unindented line
  let directory := (between? "\"" "\"" text).map fun path => argument (.directory path)
  let shown := (between? "$<TARGET_PROPERTY:" ",INTERFACE_INCLUDE_DIRECTORIES>" text).map
    fun target => argument (.shownBy target)
  let language := (between? "$<$<COMPILE_LANGUAGE:" ">:" text).bind Language.ofSpelling?
  if text = ")" then some statementEnd
  else if text = ">" then some conditionEnd
  else directory <|> shown <|> language.map condition <|> (Scope.ofSpelling? text).map keyword

end IncludeLine

/-! ## Reading a statement -/

/-- A directory, or a target that shows some, with the scope that it is given for. -/
structure IncludeEntry where
  scope : Scope
  /-- The language that the entry is limited to, if any. -/
  condition : Option Language
  source : IncludeSource
deriving DecidableEq, Repr

/-- What has been read of a statement. -/
structure IncludeReading where
  /-- The keywords that have been met; the last one is in force. -/
  keywords : List Scope := []
  /-- The condition that has been opened. -/
  condition : Option Language := none
  entries : List IncludeEntry := []
  ended : Bool := false
deriving DecidableEq, Repr

namespace IncludeReading

/-- One line further. Keywords and the end of the statement stand outside of conditions, and
nothing stands behind the end. -/
def step (reading : IncludeReading) (line : IncludeLine) : Option IncludeReading :=
  if reading.ended then none
  else
    match line, reading.condition with
    | .keyword scope, none => some { reading with keywords := reading.keywords ++ [scope] }
    | .condition language, none => some { reading with condition := some language }
    | .conditionEnd, some _ => some { reading with condition := none }
    | .statementEnd, none => some { reading with ended := true }
    | .argument source, condition =>
        reading.keywords.getLast?.map fun scope =>
          { reading with entries := reading.entries ++ [{ scope, condition, source }] }
    | _, _ => none

def line? (reading : IncludeReading) (line : String) : Option IncludeReading :=
  (IncludeLine.ofText? line).bind reading.step

/-- The reading behind the first line of a statement about a target. -/
def ofStart? (target line : String) : Option IncludeReading :=
  (Text.stripStart? line ("target_include_directories(" ++ target)).bind fun rest =>
    if rest = "" then some {}
    else
      ((Text.stripStart? rest " ").bind Scope.ofSpelling?).map fun scope =>
        { keywords := [scope] }

end IncludeReading

/-- Read a whole statement about the include directories of a target. -/
def readIncludes? (target text : String) : Option IncludeReading :=
  match Text.pieces '\n' text with
  | "" :: first :: rest =>
      ((IncludeReading.ofStart? target first).bind
        (rest.foldlM IncludeReading.line? ·)).filter (·.ended)
  | _ => none

/-! ## Single lines -/

/-- A text that stands on one line and between two double quotes. -/
structure Plain (text : String) : Prop where
  oneLine : '\n' ∉ text.toList
  unquoted : '"' ∉ text.toList

theorem unindented_append {margin : String} (blank : margin.toList.all (· = ' ') = true)
    (line : String) : unindented (margin ++ line) = unindented line := by
  rw [unindented, String.toList_append, List.dropWhile_append_of_pos]
  · rfl
  · exact List.all_eq_true.mp blank

theorem unindented_eq_self {line : String} (notBlank : line.toList.head? ≠ some ' ') :
    unindented line = line := by
  rw [unindented, ← String.toList_inj, String.toList_ofList]
  cases chars : line.toList with
  | nil => rfl
  | cons first rest =>
      rw [chars, List.head?_cons] at notBlank
      exact List.dropWhile_cons_of_neg fun blank =>
        notBlank (congrArg some (of_decide_eq_true blank))

theorem between?_append (start ending : String) {inner : String} (plain : Plain inner) :
    between? start ending (start ++ inner ++ ending) = some inner := by
  rw [between?, String.append_assoc, Text.stripStart_append, Option.bind_some,
    Text.stripEnd_append]
  exact Option.filter_some_pos (decide_eq_true plain.unquoted)

theorem between?_eq_none {start text : String} (apart : ∀ rest, text ≠ start ++ rest)
    (ending : String) : between? start ending text = none := by
  rw [between?, Text.stripStart_eq_none apart]
  rfl

namespace IncludeLine

theorem ofText?_indent {margin : String} (blank : margin.toList.all (· = ' ') = true)
    (line : String) : ofText? (margin ++ line) = ofText? line := by
  rw [ofText?, ofText?, unindented_append blank]

theorem ofText?_of_head {line : String} {first : Char} (starts : line.toList.head? = some first)
    (notBlank : first ≠ ' ') (notBracket : first ≠ ')') (notAngle : first ≠ '>') :
    ofText? line =
      ((between? "\"" "\"" line).map (argument <| .directory ·) <|>
        (between? "$<TARGET_PROPERTY:" ",INTERFACE_INCLUDE_DIRECTORIES>" line).map
          (argument <| .shownBy ·) <|>
        ((between? "$<$<COMPILE_LANGUAGE:" ">:" line).bind Language.ofSpelling?).map condition <|>
        (Scope.ofSpelling? line).map keyword) := by
  have notEnd : line ≠ ")" := by
    rintro rfl
    exact notBracket (Option.some.inj starts).symm
  have notConditionEnd : line ≠ ">" := by
    rintro rfl
    exact notAngle (Option.some.inj starts).symm
  have whole : unindented line = line := by
    refine unindented_eq_self ?_
    rw [starts]
    exact fun same => notBlank (Option.some.inj same)
  rw [ofText?, whole, if_neg notEnd, if_neg notConditionEnd]

theorem ofText?_quoted {path : String} (plain : Plain path) :
    ofText? (quoted path) = some (.argument (.directory path)) := by
  have start : (quoted path).toList.head? = some '"' := by
    simp [quoted]
  have read : between? "\"" "\"" (quoted path) = some path := by
    rw [quoted]
    exact between?_append _ _ plain
  rw [ofText?_of_head start (by decide) (by decide) (by decide), read]
  rfl

theorem targetProperty_eq (target property : String) :
    targetProperty target property =
      "$<TARGET_PROPERTY:" ++ target ++ ("," ++ property ++ ">") := by
  -- With `property` a literal, `simp` would join it with its neighbours.
  unfold targetProperty
  simp only [String.append_assoc]

theorem ofText?_targetProperty {target : String} (plain : Plain target) :
    ofText? (targetProperty target "INTERFACE_INCLUDE_DIRECTORIES") =
      some (.argument (.shownBy target)) := by
  have ending : "," ++ "INTERFACE_INCLUDE_DIRECTORIES" ++ ">" =
      ",INTERFACE_INCLUDE_DIRECTORIES>" := by
    decide
  rw [targetProperty_eq, ending]
  have start : ("$<TARGET_PROPERTY:" ++ target ++
      ",INTERFACE_INCLUDE_DIRECTORIES>").toList.head? = some '$' := by
    simp
  have notQuoted : between? "\"" "\"" ("$<TARGET_PROPERTY:" ++ target ++
      ",INTERFACE_INCLUDE_DIRECTORIES>") = none := by
    refine between?_eq_none (fun rest same => ?_) _
    rw [same] at start
    simp at start
  rw [ofText?_of_head start (by decide) (by decide) (by decide), notQuoted,
    between?_append _ _ plain]
  rfl

theorem ofText?_condition (language : Language) :
    ofText? ("$<$<COMPILE_LANGUAGE:" ++ language.spelling ++ ">:") =
      some (.condition language) := by
  cases language <;> decide

theorem ofText?_keyword (scope : Scope) : ofText? scope.spelling = some (.keyword scope) := by
  cases scope <;> decide

end IncludeLine

/-! ## Parts of a statement -/

/-- Lines, each of which stays one, that take a reading further. -/
structure Reads (lines : Lines) (reading after : IncludeReading) : Prop where
  oneLine : ∀ line ∈ lines, '\n' ∉ line.toList
  read : lines.foldlM IncludeReading.line? reading = some after

namespace Reads

variable {reading between after : IncludeReading}

theorem nil (reading : IncludeReading) : Reads [] reading reading where
  oneLine _ member := absurd member List.not_mem_nil
  read := rfl

theorem single {line : String} {said : IncludeLine} (oneLine : '\n' ∉ line.toList)
    (spells : IncludeLine.ofText? line = some said) (leads : reading.step said = some after) :
    Reads [line] reading after where
  oneLine other member := by
    rw [List.mem_singleton.mp member]
    exact oneLine
  read := by
    rw [List.foldlM_cons, IncludeReading.line?, spells, Option.bind_some, leads]
    rfl

theorem append {first second : Lines} (start : Reads first reading between)
    (rest : Reads second between after) : Reads (first ++ second) reading after where
  oneLine line member :=
    (List.mem_append.mp member).elim (start.oneLine line) (rest.oneLine line)
  read := by
    rw [List.foldlM_append, start.read]
    exact rest.read

theorem indent {margin : String} (blank : margin.toList.all (· = ' ') = true) {lines : Lines}
    (unmoved : Reads lines reading after) : Reads (Lines.indent margin lines) reading after where
  oneLine line member newline := by
    rcases List.mem_map.mp member with ⟨inner, inside, rfl⟩
    rcases List.mem_append.mp (String.toList_append ▸ newline) with inMargin | inLine
    · exact absurd (List.all_eq_true.mp blank _ inMargin) (by decide)
    · exact unmoved.oneLine inner inside inLine
  read := by
    have same : ∀ (reading : IncludeReading) (line : String),
        reading.line? (margin ++ line) = reading.line? line := by
      intro reading line
      rw [IncludeReading.line?, IncludeLine.ofText?_indent blank]
      rfl
    rw [Lines.indent, List.foldlM_map]
    simp only [same]
    exact unmoved.read

end Reads

/-! ## What a statement says -/

def bucketEntries (scope : Scope) (bucket : Language × List String) : List IncludeEntry :=
  bucket.2.map fun path =>
    { scope
      condition := if bucket.1 = .all then none else some bucket.1
      source := .directory path }

def languageEntries (scope : Scope) (paths : LanguageMap) : List IncludeEntry :=
  Language.buckets.flatMap fun language => bucketEntries scope (language, paths.get language)

/-- The entries of the parent's part under a scope. -/
def parentEntries (scope : Scope) : Option (ParentPart LanguageMap) → List IncludeEntry
  | some (.inherited target) => [{ scope, condition := none, source := .shownBy target }]
  | some (.resolved paths) => languageEntries scope paths
  | none => []

/-- The entries under one scope; those of the parent come first under theirs. -/
def scopeEntries (scope : Scope) (parent : Option (ParentPart LanguageMap)) (includes : ScopeMap)
    (current : Scope) : List IncludeEntry :=
  (if current = scope then parentEntries scope parent else []) ++
    languageEntries current (includes.get current)

/-- Lines that say some entries wherever a scope and a condition are in force: whatever has been
read before them, they add these entries and leave both in force. -/
def Says (scope : Scope) (condition : Option Language) (lines : Lines)
    (said : List IncludeEntry) : Prop :=
  ∀ keywords entries, Reads lines ⟨keywords ++ [scope], condition, entries, false⟩
    ⟨keywords ++ [scope], condition, entries ++ said, false⟩

namespace Says

variable {scope : Scope} {condition : Option Language} {lines : Lines} {said : List IncludeEntry}

theorem nil : Says scope condition [] [] := by
  intro keywords entries
  rw [List.append_nil]
  exact .nil _

theorem append {rest : Lines} {further : List IncludeEntry}
    (first : Says scope condition lines said) (second : Says scope condition rest further) :
    Says scope condition (lines ++ rest) (said ++ further) := by
  intro keywords entries
  rw [← List.append_assoc]
  exact (first keywords entries).append (second keywords (entries ++ said))

theorem flatMap {α : Type} {items : List α} {part : α → Lines} {entries : α → List IncludeEntry}
    (each : ∀ item ∈ items, Says scope condition (part item) (entries item)) :
    Says scope condition (items.flatMap part) (items.flatMap entries) :=
  Text.related_flatMap nil append each

theorem argument {line : String} {source : IncludeSource} (oneLine : '\n' ∉ line.toList)
    (spells : IncludeLine.ofText? line = some (.argument source)) :
    Says scope condition [line] [⟨scope, condition, source⟩] := by
  intro keywords entries
  refine .single oneLine spells ?_
  simp [IncludeReading.step]

theorem forLanguage {language : Language} (inside : Says scope (some language) lines said) :
    Says scope none (forLanguage language lines) said := by
  intro keywords entries
  have opens : Reads ["$<$<COMPILE_LANGUAGE:" ++ language.spelling ++ ">:"]
      ⟨keywords ++ [scope], none, entries, false⟩
      ⟨keywords ++ [scope], some language, entries, false⟩ :=
    .single (by cases language <;> decide) (IncludeLine.ofText?_condition language) rfl
  have closes : Reads [">"] ⟨keywords ++ [scope], some language, entries ++ said, false⟩
      ⟨keywords ++ [scope], none, entries ++ said, false⟩ :=
    .single (by decide) (by decide : IncludeLine.ofText? ">" = some .conditionEnd) rfl
  exact opens.append (((inside keywords entries).indent (by decide)).append closes)

end Says

section Scope

variable {scope : Scope} {condition : Option Language}

theorem says_quoted {paths : List String} (plain : ∀ path ∈ paths, Plain path) :
    Says scope condition (paths.map quoted)
      (paths.map fun path => ⟨scope, condition, .directory path⟩) := by
  rw [List.map_eq_flatMap, List.map_eq_flatMap]
  refine .flatMap fun path member => ?_
  have oneLine : '\n' ∉ (quoted path).toList := by
    simpa [quoted] using (plain path member).oneLine
  exact .argument oneLine (IncludeLine.ofText?_quoted (plain path member))

theorem says_languagePaths {paths : LanguageMap} (plain : ∀ path, paths.Holds path → Plain path) :
    Says scope none (languagePaths paths) (languageEntries scope paths) := by
  have present : languageEntries scope paths = paths.toList.flatMap (bucketEntries scope) :=
    (LanguageMap.flatMap_toList paths fun _ => rfl).symm
  rw [present]
  refine .flatMap fun (language, list) member => ?_
  have plainList : ∀ path ∈ list, Plain path := fun path inside =>
    plain path ⟨language, LanguageMap.mem_get.mpr ⟨list, member, inside⟩⟩
  by_cases all : language = .all
  · simpa [bucketEntries, all] using says_quoted plainList
  · simpa [bucketEntries, all] using (says_quoted plainList).forLanguage

end Scope

/-- The texts of a statement about include directories stay apart from what is between them. -/
structure PlainIncludes (target : String) (parent : Option (ParentPart LanguageMap))
    (includes : ScopeMap) : Prop where
  target : Plain target
  inherited : ∀ outer, parent = some (.inherited outer) → Plain outer
  resolved : ∀ paths, parent = some (.resolved paths) → ∀ path, paths.Holds path → Plain path
  own : ∀ scope path, (includes.get scope).Holds path → Plain path

section Statement

variable {target : String} {scope : Scope} {parent : Option (ParentPart LanguageMap)}
  {includes : ScopeMap} (plain : PlainIncludes target parent includes)
include plain

theorem says_parent : Says scope none (parentIncludePaths parent) (parentEntries scope parent) := by
  cases parent with
  | none => exact .nil
  | some part =>
      cases part with
      | inherited outer =>
          have plainOuter := plain.inherited outer rfl
          have oneLine : '\n' ∉ (targetProperty outer "INTERFACE_INCLUDE_DIRECTORIES").toList := by
            unfold targetProperty
            simp only [String.toList_append, List.mem_append, not_or]
            exact ⟨⟨⟨⟨by decide, plainOuter.oneLine⟩, by decide⟩, by decide⟩, by decide⟩
          exact .argument oneLine (IncludeLine.ofText?_targetProperty plainOuter)
      | resolved paths => exact says_languagePaths (plain.resolved paths rfl)

theorem says_scopePaths (current : Scope) :
    Says current none (scopePaths scope parent includes current)
      (scopeEntries scope parent includes current) := by
  refine .append ?_ (says_languagePaths (plain.own current))
  by_cases same : current = scope
  · rw [if_pos same, if_pos same, ← same]
    exact says_parent plain
  · rw [if_neg same, if_neg same]
    exact .nil

variable (scope) in
theorem reads_scopes (scopes keywords : List Scope) (entries : List IncludeEntry) :
    Reads
      (scopes.flatMap fun current =>
        ("  " ++ current.spelling) ::
          Lines.indent "    " (scopePaths scope parent includes current))
      ⟨keywords, none, entries, false⟩
      ⟨keywords ++ scopes, none, entries ++ scopes.flatMap (scopeEntries scope parent includes),
        false⟩ := by
  induction scopes generalizing keywords entries with
  | nil => simpa using Reads.nil _
  | cons current rest induction =>
      have spells : IncludeLine.ofText? ("  " ++ current.spelling) = some (.keyword current) := by
        rw [IncludeLine.ofText?_indent (by decide)]
        exact IncludeLine.ofText?_keyword current
      have keyword : Reads ["  " ++ current.spelling] ⟨keywords, none, entries, false⟩
          ⟨keywords ++ [current], none, entries, false⟩ :=
        .single (by cases current <;> decide) spells rfl
      have below : Reads (Lines.indent "    " (scopePaths scope parent includes current)) _ _ :=
        (says_scopePaths plain current keywords entries).indent (by decide)
      have others := induction (keywords ++ [current])
        (entries ++ scopeEntries scope parent includes current)
      rw [List.append_assoc, List.append_assoc] at others
      exact keyword.append (below.append others)

end Statement

/-! ## Whole statements -/

theorem ofStart?_target (target : String) :
    IncludeReading.ofStart? target ("target_include_directories(" ++ target) = some {} := by
  have stripped := Text.stripStart_append ("target_include_directories(" ++ target) ""
  rw [String.append_empty] at stripped
  rw [IncludeReading.ofStart?, stripped]
  rfl

theorem ofStart?_keyword (target : String) (scope : Scope) :
    IncludeReading.ofStart? target
        ("target_include_directories(" ++ (target ++ " " ++ scope.spelling)) =
      some { keywords := [scope] } := by
  rw [String.append_assoc, ← String.append_assoc, IncludeReading.ofStart?, Text.stripStart_append,
    Option.bind_some, if_neg, Text.stripStart_append]
  · cases scope <;> rfl
  · cases scope <;> decide

theorem readIncludes?_statement {target start : String} {arguments : Lines}
    {reading : IncludeReading} {keywords : List Scope} {entries : List IncludeEntry}
    (oneLine : '\n' ∉ start.toList)
    (starts : IncludeReading.ofStart? target ("target_include_directories(" ++ start) =
      some reading)
    (reads : Reads arguments reading ⟨keywords, none, entries, false⟩) :
    readIncludes? target (statement "target_include_directories" start arguments).text =
      some ⟨keywords, none, entries, true⟩ := by
  have ends : Reads [")"] ⟨keywords, none, entries, false⟩ ⟨keywords, none, entries, true⟩ :=
    .single (by decide) (by decide : IncludeLine.ofText? ")" = some .statementEnd) rfl
  have whole := reads.append ends
  have command : "target_include_directories" ++ "(" = "target_include_directories(" := by decide
  have lines : statement "target_include_directories" start arguments =
      ("target_include_directories(" ++ start) :: (arguments ++ [")"]) := by
    rw [statement, command]
    rfl
  rw [readIncludes?, lines, Lines.pieces_text]
  · simp only [starts, Option.bind_some, whole.read]
    rfl
  · intro line member
    rcases List.mem_cons.mp member with rfl | inside
    · rw [String.toList_append, List.mem_append, not_or]
      exact ⟨by decide, oneLine⟩
    · exact whole.oneLine line inside

/-- The scopes that a statement has something to say for: its own, and those of the map. -/
def spokenScopes (scope : Scope) (includes : ScopeMap) : List Scope :=
  Scope.list.filter fun current => current = scope || (includes.get? current).isSome

theorem flatMap_spokenScopes (scope : Scope) (parent : Option (ParentPart LanguageMap))
    (includes : ScopeMap) :
    (spokenScopes scope includes).flatMap (scopeEntries scope parent includes) =
      Scope.list.flatMap (scopeEntries scope parent includes) := by
  unfold spokenScopes
  induction Scope.list with
  | nil => rfl
  | cons current rest induction =>
      rw [List.filter_cons, List.flatMap_cons, ← induction]
      split
      case isTrue => rfl
      case isFalse silent =>
        rw [Bool.or_eq_true, not_or, decide_eq_true_eq, Option.not_isSome_iff_eq_none] at silent
        have nothing : scopeEntries scope parent includes current = [] := by
          rw [scopeEntries, if_neg silent.1, ScopeMap.get, silent.2]
          rfl
        rw [nothing]
        rfl

theorem spokenScopes_of_single {scope : Scope} {includes : ScopeMap}
    (single : includes.toList.all (·.1 = scope) = true) :
    spokenScopes scope includes = [scope] := by
  have only : ∀ current, (includes.get? current).isSome = true → current = scope := by
    intro current present
    rcases Option.isSome_iff_exists.mp present with ⟨languages, found⟩
    have member := ScopeMap.mem_toList.mpr found
    exact of_decide_eq_true (List.all_eq_true.mp single _ member)
  have same : ∀ current ∈ Scope.list,
      (decide (current = scope) || (includes.get? current).isSome) = decide (current = scope) := by
    intro current _
    rw [Bool.or_eq_left_iff_imp]
    exact fun present => decide_eq_true (only current present)
  rw [spokenScopes, List.filter_congr same]
  cases scope <;> rfl

/-- The statement about the include directories of a target, read back, says what it was made
of: under its own scope what is taken over from the parent, and under each scope the paths of
the map, each for its language. No scope is given twice. -/
theorem include_directories_read_back (target : String) (scope : Scope)
    (parent : Option (ParentPart LanguageMap)) (includes : ScopeMap)
    (plain : PlainIncludes target parent includes) :
    readIncludes? target (includeDirectories target scope parent includes).text =
      some
        { keywords := spokenScopes scope includes
          condition := none
          entries := Scope.list.flatMap fun current =>
            (if current = scope then parentEntries scope parent else []) ++
              languageEntries current (includes.get current)
          ended := true } ∧
    (spokenScopes scope includes).Nodup := by
  have once : (spokenScopes scope includes).Nodup := by
    have distinct : Scope.list.Nodup := by decide
    exact distinct.filter _
  refine ⟨?_, once⟩
  have entries : (spokenScopes scope includes).flatMap (scopeEntries scope parent includes) = _ :=
    flatMap_spokenScopes scope parent includes
  unfold includeDirectories
  -- A keyword that is alone is read with the first line, several of them below it.
  split
  case isTrue single =>
    have start : '\n' ∉ (target ++ " " ++ scope.spelling).toList := by
      rw [String.toList_append, String.toList_append, List.mem_append, List.mem_append, not_or,
        not_or]
      exact ⟨⟨plain.target.oneLine, by decide⟩, by cases scope <;> decide⟩
    rw [spokenScopes_of_single single] at entries ⊢
    rw [List.flatMap_singleton] at entries
    have reads : Reads (Lines.indent "  " (scopePaths scope parent includes scope)) _ _ :=
      (says_scopePaths plain scope [] []).indent (by decide)
    rw [List.nil_append, List.nil_append, entries] at reads
    exact readIncludes?_statement start (ofStart?_keyword target scope) reads
  case isFalse =>
    have reads := reads_scopes scope plain (spokenScopes scope includes) [] []
    rw [List.nil_append, List.nil_append, entries] at reads
    exact readIncludes?_statement plain.target.oneLine (ofStart?_target target) reads

theorem include_directories_read_back_scopes :
    let parent := some (ParentPart.resolved { all := some ["kept"] })
    let includes : ScopeMap :=
      { own := some { asm := some ["private"] }, shared := some { all := some ["public"] } }
    PlainIncludes "Unit" parent includes ∧
    readIncludes? "Unit" (includeDirectories "Unit" .shared parent includes).text =
      some
        { keywords := [.own, .shared]
          condition := none
          entries :=
            [⟨.own, some .asm, .directory "private"⟩, ⟨.shared, none, .directory "kept"⟩,
              ⟨.shared, none, .directory "public"⟩]
          ended := true } := by
  intro parent includes
  have texts : ∀ text ∈ ["Unit", "kept", "private", "public"], Plain text := by
    have checked : ∀ text ∈ ["Unit", "kept", "private", "public"],
        '\n' ∉ text.toList ∧ '"' ∉ text.toList := by decide
    exact fun text member => ⟨(checked text member).1, (checked text member).2⟩
  have plain : PlainIncludes "Unit" parent includes := by
    refine ⟨texts _ (by decide), fun outer same => ?_, fun paths same path => ?_,
      fun scope path => ?_⟩
    · cases Option.some.inj same
    · cases Option.some.inj same
      rintro ⟨language, member⟩
      cases language <;> simp_all [LanguageMap.get, LanguageMap.get?]
    · rintro ⟨language, member⟩
      cases scope <;> cases language <;>
        simp_all [includes, ScopeMap.get, ScopeMap.get?, LanguageMap.get, LanguageMap.get?,
          LanguageMap.empty]
  exact ⟨plain, (include_directories_read_back "Unit" .shared parent includes plain).1⟩

end Lists

end SolutionLists
