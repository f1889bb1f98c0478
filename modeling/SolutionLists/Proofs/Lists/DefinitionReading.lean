import SolutionLists.Lists.Statement
import SolutionLists.Proofs.Path.Lexical
import SolutionLists.Proofs.Text

namespace SolutionLists.Lists

/-! Definitions as they are read back from the lists. Statements are read character by character
into arguments, and arguments into the items of a list. Escapes, references to variables and
arguments in square brackets are not looked into. -/

/-! ## Reading arguments -/

/-- An argument, or a parenthesis around some. -/
inductive ArgumentItem where
  | text (text : String)
  | opening
  | closing
deriving DecidableEq, Repr

/-- Where a reader stands, with what it has read of an argument. -/
inductive ArgumentPlace where
  | between
  | bare (chars : List Char)
  | quoted (chars : List Char)
  | comment
deriving DecidableEq, Repr

/-- The characters of an argument that has been begun. -/
def ArgumentPlace.chars : ArgumentPlace → List Char
  | between => []
  | bare chars => chars
  | quoted chars => chars
  | comment => []

structure ArgumentReading where
  items : List ArgumentItem := []
  place : ArgumentPlace := .between
deriving DecidableEq, Repr

/-- The characters that end an argument without quotes. -/
def endsArgument (char : Char) : Bool :=
  char.isWhitespace || char ∈ ['(', ')', '#', '"']

/-- The items of a list; there are none without characters. -/
def listItems (text : String) : List String :=
  (Text.pieces ';' text).filter (· ≠ "")

namespace ArgumentReading

/-- Between two arguments, a character may open the next one. -/
def start (items : List ArgumentItem) (char : Char) : ArgumentReading :=
  if char = '(' then { items := items ++ [.opening] }
  else if char = ')' then { items := items ++ [.closing] }
  else if char = '#' then { items, place := .comment }
  else if char = '"' then { items, place := .quoted [] }
  else if char.isWhitespace then { items }
  else { items, place := .bare [char] }

/-- An argument without quotes gives the items of a list, one in quotes is a whole. -/
def step (reading : ArgumentReading) (char : Char) : ArgumentReading :=
  match reading.place with
  | .between => start reading.items char
  | .bare chars =>
      if endsArgument char then
        start (reading.items ++ (listItems (String.ofList chars)).map .text) char
      else { reading with place := .bare (chars ++ [char]) }
  | .quoted chars =>
      if char = '"' then { items := reading.items ++ [.text (String.ofList chars)] }
      else { reading with place := .quoted (chars ++ [char]) }
  | .comment => if char = '\n' then { reading with place := .between } else reading

end ArgumentReading

/-- The arguments in a text, if none of them is left open. The last line ends like the others. -/
def argumentItems? (text : String) : Option (List ArgumentItem) :=
  let reading := (text ++ "\n").toList.foldl ArgumentReading.step {}
  if reading.place = .between then some reading.items else none

def commandCall (command : String) (arguments : List String) : List ArgumentItem :=
  .text command :: .opening :: arguments.map .text ++ [.closing]

/-- A text that is one argument without quotes, and one item of a list. -/
structure IsArgument (text : String) : Prop where
  something : text ≠ ""
  unbroken : ∀ char ∈ text.toList, endsArgument char = false
  single : ';' ∉ text.toList

theorem isArgument_iff {text : String} :
    IsArgument text ↔
      text ≠ "" ∧ text.toList.all (!endsArgument ·) = true ∧ ';' ∉ text.toList := by
  simp only [List.all_eq_true, Bool.not_eq_true']
  exact ⟨fun argument => ⟨argument.something, argument.unbroken, argument.single⟩,
    fun parts => ⟨parts.1, parts.2.1, parts.2.2⟩⟩

instance (text : String) : Decidable (IsArgument text) :=
  decidable_of_iff _ isArgument_iff.symm

theorem listItems_of_single {text : String} (something : text ≠ "") (single : ';' ∉ text.toList) :
    listItems text = [text] := by
  rw [listItems, Text.pieces, List.splitOn_eq_singleton single]
  simp [something]

theorem of_mem_listItems {text item : String} (member : item ∈ listItems text) :
    item ≠ "" ∧ ∀ char ∈ item.toList, char ∈ text.toList ∧ char ≠ ';' := by
  obtain ⟨inside, something⟩ := List.mem_filter.mp member
  obtain ⟨chars, split, rfl⟩ := List.mem_map.mp inside
  refine ⟨of_decide_eq_true something, fun char present => ?_⟩
  rw [String.toList_ofList] at present
  exact Path.mem_of_mem_splitOn split char present

/-! ## What some characters add -/

/-- Characters that add some items wherever a reader stands between two arguments. -/
def ReadsAs (chars : List Char) (added : List ArgumentItem) : Prop :=
  ∀ items, chars.foldl ArgumentReading.step { items } = { items := items ++ added }

namespace ReadsAs

variable {chars : List Char} {added : List ArgumentItem}

theorem nil : ReadsAs [] [] := by
  intro items
  rw [List.append_nil]
  rfl

theorem append {rest : List Char} {further : List ArgumentItem} (first : ReadsAs chars added)
    (second : ReadsAs rest further) : ReadsAs (chars ++ rest) (added ++ further) := by
  intro items
  rw [List.foldl_append, first items, second, List.append_assoc]

theorem flatMap {α : Type} {items : List α} {part : α → List Char}
    {adds : α → List ArgumentItem} (each : ∀ item ∈ items, ReadsAs (part item) (adds item)) :
    ReadsAs (items.flatMap part) (items.flatMap adds) :=
  Text.related_flatMap nil append each

theorem foldl_bare {chars : List Char} (unbroken : ∀ char ∈ chars, endsArgument char = false)
    (items : List ArgumentItem) (front : List Char) :
    chars.foldl ArgumentReading.step { items, place := .bare front } =
      { items, place := .bare (front ++ chars) } := by
  induction chars generalizing front with
  | nil =>
      rw [List.append_nil]
      rfl
  | cons char rest induction =>
      have goesOn : ArgumentReading.step { items, place := .bare front } char =
          { items, place := .bare (front ++ [char]) } := by
        simp [ArgumentReading.step, unbroken char List.mem_cons_self]
      rw [List.foldl_cons, goesOn,
        induction (fun other member => unbroken other (List.mem_cons_of_mem char member)),
        List.append_assoc]
      rfl

theorem start_of_goesOn {char : Char} (unbroken : endsArgument char = false)
    (items : List ArgumentItem) :
    ArgumentReading.start items char = { items, place := .bare [char] } := by
  simp only [endsArgument, Bool.or_eq_false_iff, decide_eq_false_iff_not, List.mem_cons,
    List.not_mem_nil, not_or] at unbroken
  simp [ArgumentReading.start, unbroken]

theorem bare {text : String} (argument : IsArgument text) {ending : Char}
    (ends : endsArgument ending = true)
    (adds : ∀ items, ArgumentReading.start items ending = { items := items ++ added }) :
    ReadsAs (text.toList ++ [ending]) (.text text :: added) := by
  intro items
  cases chars : text.toList with
  | nil => exact absurd (String.toList_eq_nil_iff.mp chars) argument.something
  | cons first rest =>
      have unbroken := chars ▸ argument.unbroken
      have starts : ArgumentReading.step { items } first = { items, place := .bare [first] } :=
        start_of_goesOn (unbroken first List.mem_cons_self) items
      have whole : String.ofList ([first] ++ rest) = text := by
        rw [List.singleton_append, ← chars, String.ofList_toList]
      have stops : ArgumentReading.step { items, place := .bare ([first] ++ rest) } ending =
          { items := items ++ [.text text] ++ added } := by
        rw [ArgumentReading.step]
        dsimp only
        rw [if_pos ends, whole, listItems_of_single argument.something argument.single, adds]
        rfl
      rw [List.cons_append, List.foldl_cons, starts, List.foldl_append,
        foldl_bare fun char member => unbroken char (List.mem_cons_of_mem first member),
        List.foldl_cons, stops, List.append_assoc]
      rfl

theorem start_of_blank {char : Char} (blank : char.isWhitespace = true)
    (items : List ArgumentItem) : ArgumentReading.start items char = { items } := by
  have others : char ≠ '(' ∧ char ≠ ')' ∧ char ≠ '#' ∧ char ≠ '"' := by
    refine ⟨?_, ?_, ?_, ?_⟩ <;>
    · rintro rfl
      revert blank
      decide
  simp [ArgumentReading.start, others, blank]

theorem blank {char : Char} (blank : char.isWhitespace = true) : ReadsAs [char] [] := by
  intro items
  rw [List.append_nil]
  exact start_of_blank blank items

theorem bareBlank {text : String} (argument : IsArgument text) {ending : Char}
    (blank : ending.isWhitespace = true) : ReadsAs (text.toList ++ [ending]) [.text text] := by
  refine bare argument ?_ fun items => ?_
  · rw [endsArgument, blank]
    rfl
  · rw [List.append_nil]
    exact start_of_blank blank items

theorem space : ReadsAs [' '] [] :=
  blank (by decide)

theorem lineBreak : ReadsAs ['\n'] [] :=
  blank (by decide)

theorem bareSpace {text : String} (argument : IsArgument text) :
    ReadsAs (text.toList ++ [' ']) [.text text] :=
  bareBlank argument (by decide)

theorem bareBreak {text : String} (argument : IsArgument text) :
    ReadsAs (text.toList ++ ['\n']) [.text text] :=
  bareBlank argument (by decide)

theorem bareOpening {text : String} (argument : IsArgument text) :
    ReadsAs (text.toList ++ ['(']) [.text text, .opening] :=
  bare argument (by decide) fun _ => rfl

theorem bareClosing {text : String} (argument : IsArgument text) :
    ReadsAs (text.toList ++ [')']) [.text text, .closing] :=
  bare argument (by decide) fun _ => rfl

theorem closing : ReadsAs [')'] [.closing] :=
  fun _ => rfl

theorem inQuotes {text : String} (unquoted : '"' ∉ text.toList) :
    ReadsAs (quoted text).toList [.text text] := by
  have inside : ∀ (chars : List Char), '"' ∉ chars → ∀ items front,
      chars.foldl ArgumentReading.step { items, place := .quoted front } =
        { items, place := .quoted (front ++ chars) } := by
    intro chars unquoted items
    induction chars with
    | nil =>
        intro front
        rw [List.append_nil]
        rfl
    | cons char rest induction =>
        intro front
        rw [List.mem_cons, not_or] at unquoted
        have goesOn : ArgumentReading.step { items, place := .quoted front } char =
            { items, place := .quoted (front ++ [char]) } := by
          simp [ArgumentReading.step, Ne.symm unquoted.1]
        rw [List.foldl_cons, goesOn, induction unquoted.2, List.append_assoc]
        rfl
  intro items
  have chars : (quoted text).toList = '"' :: (text.toList ++ ['"']) := by
    simp [quoted]
  have opens : ArgumentReading.step { items } '"' = { items, place := .quoted [] } := rfl
  have closes : ArgumentReading.step { items, place := .quoted text.toList } '"' =
      { items := items ++ [.text text] } := by
    simp [ArgumentReading.step]
  rw [chars, List.foldl_cons, opens, List.foldl_append, inside _ unquoted, List.nil_append,
    List.foldl_cons, closes]
  rfl

theorem allInQuotes {texts : List String} (unquoted : ∀ text ∈ texts, '"' ∉ text.toList) :
    ReadsAs (" ".intercalate (texts.map quoted)).toList (texts.map .text) := by
  rw [String.toList_intercalate]
  induction texts with
  | nil => exact nil
  | cons text rest induction =>
      have first := inQuotes (unquoted text List.mem_cons_self)
      have others := induction fun other member => unquoted other (List.mem_cons_of_mem text member)
      cases rest with
      | nil => simpa using first
      | cons next more =>
          have between : ReadsAs " ".toList [] := space
          rw [List.map_cons, List.map_cons, List.map_cons, List.map_cons,
            List.intercalate_cons_cons, ← List.map_cons, ← List.map_cons]
          exact (first.append between).append others

end ReadsAs

/-! ## What some lines add -/

/-- Lines that add some items, with the break behind each of them. -/
def LinesReadAs (lines : Lines) (added : List ArgumentItem) : Prop :=
  ReadsAs (lines.flatMap fun line => line.toList ++ ['\n']) added

theorem toList_text (lines : Lines) :
    (lines.text ++ "\n").toList = '\n' :: lines.flatMap fun line => line.toList ++ ['\n'] := by
  induction lines with
  | nil => rfl
  | cons line rest induction =>
      rw [List.flatMap_cons, List.append_assoc, List.singleton_append, ← induction]
      simp [Lines.text]

theorem argumentItems?_text {lines : Lines} {added : List ArgumentItem}
    (adds : LinesReadAs lines added) : argumentItems? lines.text = some added := by
  have read : (lines.text ++ "\n").toList.foldl ArgumentReading.step {} = { items := added } := by
    rw [toList_text]
    exact (ReadsAs.lineBreak.append adds) []
  rw [argumentItems?, read]
  rfl

namespace LinesReadAs

variable {lines : Lines} {added : List ArgumentItem}

theorem append {rest : Lines} {further : List ArgumentItem} (first : LinesReadAs lines added)
    (second : LinesReadAs rest further) : LinesReadAs (lines ++ rest) (added ++ further) := by
  rw [LinesReadAs, List.flatMap_append]
  exact ReadsAs.append first second

theorem single {line : String} (adds : ReadsAs (line.toList ++ ['\n']) added) :
    LinesReadAs [line] added := by
  rw [LinesReadAs, List.flatMap_singleton]
  exact adds

theorem empty : LinesReadAs [""] [] :=
  single ReadsAs.lineBreak

theorem flatMap {α : Type} {items : List α} {part : α → Lines}
    {adds : α → List ArgumentItem} (each : ∀ item ∈ items, LinesReadAs (part item) (adds item)) :
    LinesReadAs (items.flatMap part) (items.flatMap adds) := by
  rw [LinesReadAs, List.flatMap_assoc]
  exact ReadsAs.flatMap each

theorem margin {line : String} (adds : ReadsAs (line.toList ++ ['\n']) added) :
    ReadsAs (("  " ++ line).toList ++ ['\n']) added := by
  rw [String.toList_append, List.append_assoc]
  exact (ReadsAs.space.append ReadsAs.space).append adds

theorem arguments {texts : List String} (plain : ∀ text ∈ texts, IsArgument text) :
    LinesReadAs (Lines.indent "  " texts) (texts.map .text) := by
  rw [Lines.indent, List.map_eq_flatMap, List.map_eq_flatMap]
  exact flatMap fun text member => single (margin (ReadsAs.bareBreak (plain text member)))

theorem keyword {name text : String} (plain : IsArgument name) (unquoted : '"' ∉ text.toList) :
    LinesReadAs (Lines.indent "  " [name ++ " " ++ quoted text]) [.text name, .text text] := by
  refine single (margin ?_)
  rw [String.toList_append, String.toList_append, List.append_assoc]
  exact (ReadsAs.bareSpace plain).append
    ((ReadsAs.inQuotes unquoted).append ReadsAs.lineBreak)

theorem statement {command start : String} {arguments : Lines} {first rest : List ArgumentItem}
    (plain : IsArgument command) (starts : ReadsAs (start.toList ++ ['\n']) first)
    (inner : LinesReadAs arguments rest) :
    LinesReadAs (statement command start arguments)
      ([.text command, .opening] ++ first ++ rest ++ [.closing]) := by
  have opens : LinesReadAs [command ++ "(" ++ start] ([.text command, .opening] ++ first) := by
    refine single ?_
    rw [String.toList_append, String.toList_append, List.append_assoc]
    exact (ReadsAs.bareOpening plain).append starts
  have closes : LinesReadAs [")"] [.closing] :=
    single (ReadsAs.closing.append ReadsAs.lineBreak)
  exact (opens.append inner).append closes

end LinesReadAs

/-! ## Statements about definitions -/

def parentDefinitions : Option (ParentPart (List Define)) → List String
  | some (.inherited target) => [targetProperty target "INTERFACE_COMPILE_DEFINITIONS"]
  | some (.resolved resolved) => resolved.map Define.text
  | none => []

theorem isArgument_spelling (scope : Scope) : IsArgument scope.spelling := by
  cases scope <;> decide

theorem compileDefinitions_eq (target : String) (scope : Scope)
    (parent : Option (ParentPart (List Define))) (defines : List Define) :
    compileDefinitions target scope parent defines =
      statement "target_compile_definitions" (target ++ " " ++ scope.spelling)
        (Lines.indent "  " (parentDefinitions parent ++ defines.map Define.text)) := by
  rcases parent with _ | _ | _ <;> rfl

theorem argumentItems?_compileDefinitions {target : String} {scope : Scope}
    {parent : Option (ParentPart (List Define))} {defines : List Define}
    (plain : ∀ text ∈ target :: parentDefinitions parent ++ defines.map Define.text,
      IsArgument text) :
    argumentItems? (compileDefinitions target scope parent defines).text =
      some (commandCall "target_compile_definitions"
        (target :: scope.spelling :: parentDefinitions parent ++ defines.map Define.text)) := by
  have starts : ReadsAs ((target ++ " " ++ scope.spelling).toList ++ ['\n'])
      [.text target, .text scope.spelling] := by
    rw [String.toList_append, String.toList_append, List.append_assoc]
    exact (ReadsAs.bareSpace (plain target List.mem_cons_self)).append
      (ReadsAs.bareBreak (isArgument_spelling scope))
  have arguments : LinesReadAs
      (Lines.indent "  " (parentDefinitions parent ++ defines.map Define.text))
      ((parentDefinitions parent ++ defines.map Define.text).map .text) :=
    LinesReadAs.arguments fun text member => plain text (List.mem_cons_of_mem target member)
  have whole := LinesReadAs.statement (by decide : IsArgument "target_compile_definitions") starts
    arguments
  rw [compileDefinitions_eq, argumentItems?_text whole]
  simp [commandCall]

def flagVariable (language : Language) : String :=
  language.variableStart ++ "_OPTIONS_FLAGS"

/-- The compile options of a source, with the variable for those of its abstractions. -/
def sourceOptions (properties : FileProperties) : List String :=
  properties.compileOptions ++
    if properties.abstractions.isSome then
      [Path.variableReference (flagVariable properties.language)]
    else []

/-- The calls that work out the flags of the abstractions of a source. -/
def flagCalls (properties : FileProperties) : List ArgumentItem :=
  match properties.abstractions with
  | none => []
  | some abstractions =>
      commandCall "set" [flagVariable properties.language] ++
        commandCall "cbuild_set_options_flags"
          (properties.language.variableStart ::
            abstractions.optionArguments properties.language ++
              [flagVariable properties.language]) ++
        commandCall "separate_arguments" [flagVariable properties.language]

/-- The call that sets the properties of a source. -/
def propertyCall (properties : FileProperties) : List ArgumentItem :=
  commandCall "set_source_files_properties" <|
    properties.file :: "PROPERTIES" ::
      (if properties.compileDefinitions = [] then []
        else ["COMPILE_DEFINITIONS", Define.joinTexts ";" properties.compileDefinitions]) ++
      (if sourceOptions properties = [] then []
        else ["COMPILE_OPTIONS", ";".intercalate (sourceOptions properties)])

theorem quote_not_mem_intercalate {texts : List String} :
    '"' ∉ (";".intercalate texts).toList ↔ ∀ text ∈ texts, '"' ∉ text.toList := by
  rw [String.toList_intercalate]
  induction texts with
  | nil => simp
  | cons text rest induction =>
      cases rest with
      | nil => simp
      | cons next others =>
          rw [List.map_cons, List.map_cons, List.intercalate_cons_cons, ← List.map_cons]
          simp only [List.mem_append, not_or, induction, List.forall_mem_cons]
          simp

/-- The texts that the statements about a source put in quotes. -/
def quotedTexts (properties : FileProperties) : List String :=
  properties.file ::
    (properties.abstractions.toList.flatMap (·.optionArguments properties.language) ++
      properties.compileDefinitions.map Define.text ++ properties.compileOptions)

theorem isArgument_variableStart (language : Language) : IsArgument language.variableStart := by
  cases language <;> decide

theorem isArgument_flagVariable (language : Language) : IsArgument (flagVariable language) := by
  cases language <;> decide

theorem linesReadAs_call {command argument : String} (commandPlain : IsArgument command)
    (plain : IsArgument argument) :
    LinesReadAs [command ++ "(" ++ argument ++ ")"] (commandCall command [argument]) := by
  have chars : (command ++ "(" ++ argument ++ ")").toList ++ ['\n'] =
      (command.toList ++ ['(']) ++ ((argument.toList ++ [')']) ++ ['\n']) := by
    simp
  refine .single ?_
  rw [chars]
  exact (ReadsAs.bareOpening commandPlain).append
    ((ReadsAs.bareClosing plain).append ReadsAs.lineBreak)

theorem linesReadAs_listed {command first listed last : String} {arguments : List String}
    (commandPlain : IsArgument command) (firstPlain : IsArgument first)
    (lastPlain : IsArgument last) (adds : ReadsAs listed.toList (arguments.map .text)) :
    LinesReadAs [command ++ "(" ++ first ++ " " ++ listed ++ " " ++ last ++ ")"]
      (commandCall command (first :: arguments ++ [last])) := by
  have chars : (command ++ "(" ++ first ++ " " ++ listed ++ " " ++ last ++ ")").toList ++ ['\n'] =
      (command.toList ++ ['(']) ++ ((first.toList ++ [' ']) ++
        (listed.toList ++ ([' '] ++ ((last.toList ++ [')']) ++ ['\n'])))) := by
    simp
  have opens := (ReadsAs.bareOpening commandPlain).append (ReadsAs.bareSpace firstPlain)
  have closes := ReadsAs.space.append
    ((ReadsAs.bareClosing lastPlain).append ReadsAs.lineBreak)
  have whole := opens.append (adds.append closes)
  refine .single ?_
  rw [chars]
  simpa [commandCall] using whole

theorem linesReadAs_setOptionsFlags {abstractions : Abstractions} {language : Language}
    (unquoted : ∀ text ∈ abstractions.optionArguments language, '"' ∉ text.toList) :
    LinesReadAs [setOptionsFlags abstractions language (flagVariable language)]
      (commandCall "cbuild_set_options_flags"
        (language.variableStart :: abstractions.optionArguments language ++
          [flagVariable language])) := by
  have plain : IsArgument "cbuild_set_options_flags" := by decide
  have command : "cbuild_set_options_flags(" = "cbuild_set_options_flags" ++ "(" := by decide
  have call := linesReadAs_listed plain (isArgument_variableStart language)
    (isArgument_flagVariable language) (ReadsAs.allInQuotes unquoted)
  unfold setOptionsFlags
  rw [command]
  exact call

/-- The lines that work out the flags of the abstractions of a source. -/
def flagLines (properties : FileProperties) : Lines :=
  match properties.abstractions with
  | none => []
  | some abstractions =>
      ["set(" ++ flagVariable properties.language ++ ")",
        setOptionsFlags abstractions properties.language (flagVariable properties.language),
        "separate_arguments(" ++ flagVariable properties.language ++ ")"]

theorem sourceFileProperties_eq (properties : FileProperties) :
    sourceFileProperties properties =
      flagLines properties ++
        statement "set_source_files_properties" (quoted properties.file ++ " PROPERTIES")
          (Lines.indent "  " (if properties.compileDefinitions = [] then []
              else ["COMPILE_DEFINITIONS" ++ " " ++
                quoted (Define.joinTexts ";" properties.compileDefinitions)]) ++
            Lines.indent "  " (if sourceOptions properties = [] then []
              else ["COMPILE_OPTIONS" ++ " " ++
                quoted (";".intercalate (sourceOptions properties))])) ++
        [""] := by
  have definitions : "COMPILE_DEFINITIONS" ++ " " = "COMPILE_DEFINITIONS " := by decide
  have options : "COMPILE_OPTIONS" ++ " " = "COMPILE_OPTIONS " := by decide
  rw [definitions, options, Lines.indent, Lines.indent, ← List.map_append]
  rfl

theorem linesReadAs_flagLines {properties : FileProperties}
    (unquoted : ∀ text ∈ quotedTexts properties, '"' ∉ text.toList) :
    LinesReadAs (flagLines properties) (flagCalls properties) := by
  have ofAbstractions : ∀ abstractions, properties.abstractions = some abstractions →
      ∀ text ∈ abstractions.optionArguments properties.language, '"' ∉ text.toList := by
    intro abstractions same text member
    refine unquoted text (List.mem_cons_of_mem _ ?_)
    refine List.mem_append_left _ (List.mem_append_left _ ?_)
    rw [same]
    exact List.mem_flatMap.mpr ⟨abstractions, List.mem_singleton_self _, member⟩
  rw [flagLines, flagCalls]
  cases same : properties.abstractions with
  | none => exact ReadsAs.nil
  | some abstractions =>
      have plain := isArgument_flagVariable properties.language
      have sets := linesReadAs_call (by decide : IsArgument "set") plain
      have asks := linesReadAs_setOptionsFlags (ofAbstractions abstractions same)
      have parts := linesReadAs_call (by decide : IsArgument "separate_arguments") plain
      exact (sets.append asks).append parts

theorem linesReadAs_property {α : Type} [DecidableEq α] (list : List α) {name value : String}
    (plain : IsArgument name) (unquoted : '"' ∉ value.toList) :
    LinesReadAs
      (Lines.indent "  " (if list = [] then [] else [name ++ " " ++ quoted value]))
      ((if list = [] then [] else [name, value]).map .text) := by
  split
  · exact ReadsAs.nil
  · exact LinesReadAs.keyword plain unquoted

theorem linesReadAs_sourceFileProperties {properties : FileProperties}
    (unquoted : ∀ text ∈ quotedTexts properties, '"' ∉ text.toList) :
    LinesReadAs (sourceFileProperties properties)
      (flagCalls properties ++ propertyCall properties) := by
  have starts : ReadsAs ((quoted properties.file ++ " PROPERTIES").toList ++ ['\n'])
      [.text properties.file, .text "PROPERTIES"] := by
    have chars : (quoted properties.file ++ " PROPERTIES").toList ++ ['\n'] =
        (quoted properties.file).toList ++ ([' '] ++ ("PROPERTIES".toList ++ ['\n'])) := by
      simp
    rw [chars]
    exact (ReadsAs.inQuotes (unquoted _ List.mem_cons_self)).append
      (ReadsAs.space.append (ReadsAs.bareBreak (by decide)))
  have definitions : '"' ∉ (Define.joinTexts ";" properties.compileDefinitions).toList := by
    refine quote_not_mem_intercalate.mpr fun text member => unquoted text ?_
    exact List.mem_cons_of_mem _ (List.mem_append_left _ (List.mem_append_right _ member))
  have options : '"' ∉ (";".intercalate (sourceOptions properties)).toList := by
    refine quote_not_mem_intercalate.mpr fun text member => ?_
    rcases List.mem_append.mp member with own | flags
    · exact unquoted text (List.mem_cons_of_mem _ (List.mem_append_right _ own))
    · split at flags
      · rw [List.mem_singleton.mp flags]
        cases properties.language <;> decide
      · cases flags
  have call := LinesReadAs.statement (by decide : IsArgument "set_source_files_properties") starts
    ((linesReadAs_property properties.compileDefinitions
      (by decide : IsArgument "COMPILE_DEFINITIONS") definitions).append
      (linesReadAs_property (sourceOptions properties)
        (by decide : IsArgument "COMPILE_OPTIONS") options))
  have whole := ((linesReadAs_flagLines unquoted).append call).append LinesReadAs.empty
  rw [← sourceFileProperties_eq] at whole
  simpa [propertyCall, commandCall] using whole

/-! ## What can be read at all

A double quote is never part of a text that is read. So where the texts of a statement are read as
they are, there is none in them; and without any, all of them have been read bare. -/

/-- No double quote is part of what is read. -/
structure Unquoted (reading : ArgumentReading) : Prop where
  items : ∀ text, .text text ∈ reading.items → '"' ∉ text.toList
  chars : '"' ∉ reading.place.chars

/-- All that is read stood without quotes. -/
structure Bare (reading : ArgumentReading) : Prop where
  items : ∀ text, .text text ∈ reading.items → IsArgument text
  chars : ∀ char ∈ reading.place.chars, endsArgument char = false
  unopened : ∀ chars, reading.place ≠ .quoted chars

theorem mem_start {items : List ArgumentItem} {char : Char} {text : String}
    (member : .text text ∈ (ArgumentReading.start items char).items) : .text text ∈ items := by
  unfold ArgumentReading.start at member
  repeat' split at member
  all_goals simpa using member

theorem chars_start {items : List ArgumentItem} {char other : Char}
    (member : other ∈ (ArgumentReading.start items char).place.chars) :
    other = char ∧ endsArgument char = false := by
  unfold ArgumentReading.start at member
  repeat' split at member
  all_goals simp_all [ArgumentPlace.chars, endsArgument]

theorem unopened_start {items : List ArgumentItem} {char : Char} (noQuote : char ≠ '"')
    (chars : List Char) : (ArgumentReading.start items char).place ≠ .quoted chars := by
  unfold ArgumentReading.start
  repeat' split
  all_goals simp_all

theorem unquoted_start {items : List ArgumentItem}
    (unquoted : ∀ text, .text text ∈ items → '"' ∉ text.toList) (char : Char) :
    Unquoted (ArgumentReading.start items char) where
  items text member := unquoted text (mem_start member)
  chars member := by
    obtain ⟨same, goesOn⟩ := chars_start member
    subst same
    revert goesOn
    decide

theorem bare_start {items : List ArgumentItem}
    (bare : ∀ text, .text text ∈ items → IsArgument text) {char : Char} (noQuote : char ≠ '"') :
    Bare (ArgumentReading.start items char) where
  items text member := bare text (mem_start member)
  chars other member := by
    obtain ⟨rfl, goesOn⟩ := chars_start member
    exact goesOn
  unopened := unopened_start noQuote

theorem Unquoted.step {reading : ArgumentReading} (unquoted : Unquoted reading) (char : Char) :
    Unquoted (reading.step char) := by
  obtain ⟨items, place⟩ := reading
  have before := unquoted.items
  have begun := unquoted.chars
  cases place with
  | between => exact unquoted_start before char
  | bare chars =>
      rw [ArgumentReading.step]
      dsimp only
      split
      case isTrue =>
        refine unquoted_start (fun text member => ?_) char
        rcases List.mem_append.mp member with old | new
        · exact before text old
        · obtain ⟨item, listed, same⟩ := List.mem_map.mp new
          cases same
          intro quote
          have inside := ((of_mem_listItems listed).2 _ quote).1
          rw [String.toList_ofList] at inside
          exact begun inside
      case isFalse goesOn =>
        refine ⟨before, fun member => ?_⟩
        rcases List.mem_append.mp member with old | new
        · exact begun old
        · rw [← List.mem_singleton.mp new] at goesOn
          exact goesOn (by decide)
  | quoted chars =>
      rw [ArgumentReading.step]
      dsimp only
      split
      case isTrue =>
        refine ⟨fun text member => ?_, List.not_mem_nil⟩
        rcases List.mem_append.mp member with old | new
        · exact before text old
        · cases List.mem_singleton.mp new
          rw [String.toList_ofList]
          exact begun
      case isFalse other =>
        refine ⟨before, fun member => ?_⟩
        rcases List.mem_append.mp member with old | new
        · exact begun old
        · exact other (List.mem_singleton.mp new).symm
  | comment =>
      rw [ArgumentReading.step]
      dsimp only
      split
      · exact ⟨before, List.not_mem_nil⟩
      · exact unquoted

theorem Bare.step {reading : ArgumentReading} (bare : Bare reading) {char : Char}
    (noQuote : char ≠ '"') : Bare (reading.step char) := by
  obtain ⟨items, place⟩ := reading
  have before := bare.items
  have begun := bare.chars
  cases place with
  | between => exact bare_start before noQuote
  | bare chars =>
      rw [ArgumentReading.step]
      dsimp only
      split
      case isTrue =>
        refine bare_start (fun text member => ?_) noQuote
        rcases List.mem_append.mp member with old | new
        · exact before text old
        · obtain ⟨item, listed, same⟩ := List.mem_map.mp new
          cases same
          obtain ⟨something, inside⟩ := of_mem_listItems listed
          simp only [String.toList_ofList] at inside
          exact ⟨something, fun char member => begun char (inside char member).1,
            fun semicolon => (inside _ semicolon).2 rfl⟩
      case isFalse goesOn =>
        refine ⟨before, fun other member => ?_, fun _ same => by cases same⟩
        rcases List.mem_append.mp member with old | new
        · exact begun other old
        · rw [List.mem_singleton.mp new]
          exact eq_false_of_ne_true goesOn
  | quoted chars => exact absurd rfl (bare.unopened chars)
  | comment =>
      rw [ArgumentReading.step]
      dsimp only
      split
      · exact ⟨before, fun _ member => absurd member List.not_mem_nil, fun _ same => by cases same⟩
      · exact bare

theorem unquoted_of_read {text : String} {items : List ArgumentItem}
    (read : argumentItems? text = some items) {item : String} (member : .text item ∈ items) :
    '"' ∉ item.toList := by
  rw [argumentItems?] at read
  split at read
  case isFalse => cases read
  case isTrue =>
    cases read
    have start : Unquoted {} := ⟨fun _ none => absurd none List.not_mem_nil, List.not_mem_nil⟩
    have whole : Unquoted ((text ++ "\n").toList.foldl ArgumentReading.step {}) :=
      List.foldlRecOn _ _ start fun _ unquoted char _ => unquoted.step char
    exact whole.items item member

theorem isArgument_of_read {text : String} {items : List ArgumentItem}
    (read : argumentItems? text = some items) (noQuote : '"' ∉ text.toList) {item : String}
    (member : .text item ∈ items) : IsArgument item := by
  rw [argumentItems?] at read
  split at read
  case isFalse => cases read
  case isTrue =>
    cases read
    have start : Bare {} :=
      ⟨fun _ none => absurd none List.not_mem_nil, fun _ none => absurd none List.not_mem_nil,
        fun _ same => by cases same⟩
    have whole : Bare ((text ++ "\n").toList.foldl ArgumentReading.step {}) := by
      refine List.foldlRecOn _ _ start fun _ bare char inside => bare.step ?_
      rintro rfl
      exact noQuote (by simpa using inside)
    exact whole.items item member

/-! ## Reading definitions back -/

theorem mem_commandCall {command text : String} {arguments : List String}
    (member : text ∈ arguments) : .text text ∈ commandCall command arguments :=
  List.mem_append_left _ (List.mem_cons_of_mem _ (List.mem_cons_of_mem _
    (List.mem_map_of_mem member)))

theorem quote_not_mem_text {lines : Lines} (unquoted : ∀ line ∈ lines, '"' ∉ line.toList) :
    '"' ∉ lines.text.toList := by
  intro quote
  have inside : '"' ∈ (lines.text ++ "\n").toList := by
    rw [String.toList_append]
    exact List.mem_append_left _ quote
  rw [toList_text] at inside
  have inLines := List.mem_of_ne_of_mem (by decide) inside
  rcases List.mem_flatMap.mp inLines with ⟨line, among, here⟩
  rcases List.mem_append.mp here with inLine | newline
  · exact unquoted line among inLine
  · cases List.mem_singleton.mp newline

theorem quote_not_mem_compileDefinitions {target : String} (scope : Scope)
    {parent : Option (ParentPart (List Define))} {defines : List Define}
    (unquoted : ∀ text ∈ target :: parentDefinitions parent ++ defines.map Define.text,
      '"' ∉ text.toList) :
    '"' ∉ (compileDefinitions target scope parent defines).text.toList := by
  refine quote_not_mem_text fun line member => ?_
  rw [compileDefinitions_eq] at member
  rcases List.mem_cons.mp member with rfl | later
  · have own := unquoted target List.mem_cons_self
    have keyword : '"' ∉ scope.spelling.toList := by
      cases scope <;> decide
    simp [own, keyword]
  · rcases List.mem_append.mp later with argument | bracket
    · rcases List.mem_map.mp argument with ⟨text, among, rfl⟩
      have own := unquoted text (List.mem_cons_of_mem _ among)
      simp [own]
    · rw [List.mem_singleton.mp bracket]
      decide

theorem listItems_intercalate {texts : List String} :
    listItems (";".intercalate texts) = texts ↔
      ∀ text ∈ texts, text ≠ "" ∧ ';' ∉ text.toList := by
  constructor
  · intro kept text member
    obtain ⟨something, inside⟩ := of_mem_listItems (kept.symm ▸ member)
    exact ⟨something, fun semicolon => (inside _ semicolon).2 rfl⟩
  · intro single
    by_cases nothing : texts = []
    · subst nothing
      decide
    · have split : (";".intercalate texts).toList.splitOn ';' = texts.map String.toList := by
        rw [String.toList_intercalate]
        refine List.splitOn_intercalate ';' ?_ (mt List.map_eq_nil_iff.mp nothing)
        intro chars member
        rcases List.mem_map.mp member with ⟨text, inside, rfl⟩
        exact (single text inside).2
      have texts_eq : (texts.map String.toList).map String.ofList = texts := by
        simp
      rw [listItems, Text.pieces, split, texts_eq]
      exact List.filter_eq_self.mpr fun text member => decide_eq_true (single text member).1

theorem unquoted_of_properties {properties : FileProperties}
    (unquoted : ∀ text, .text text ∈ flagCalls properties ++ propertyCall properties →
      '"' ∉ text.toList) :
    ∀ text ∈ quotedTexts properties, '"' ∉ text.toList := by
  intro text member
  rcases List.mem_cons.mp member with rfl | later
  · exact unquoted _ (List.mem_append_right _ (mem_commandCall List.mem_cons_self))
  rcases List.mem_append.mp later with inner | option
  · rcases List.mem_append.mp inner with flag | definition
    · rcases List.mem_flatMap.mp flag with ⟨abstractions, own, argument⟩
      refine unquoted text (List.mem_append_left _ ?_)
      rw [flagCalls, Option.mem_toList.mp own]
      refine List.mem_append_left _ (List.mem_append_right _ (mem_commandCall ?_))
      exact List.mem_append_left _ (List.mem_cons_of_mem _ argument)
    · have something : properties.compileDefinitions ≠ [] := by
        intro nothing
        rw [nothing] at definition
        cases definition
      refine quote_not_mem_intercalate.mp (unquoted _ (List.mem_append_right _ ?_)) text definition
      rw [propertyCall, if_neg something]
      exact mem_commandCall (List.mem_append_left _ (by simp [Define.joinTexts]))
  · have own : text ∈ sourceOptions properties := List.mem_append_left _ option
    refine quote_not_mem_intercalate.mp (unquoted _ (List.mem_append_right _ ?_)) text own
    rw [propertyCall, if_neg (List.ne_nil_of_mem own)]
    exact mem_commandCall (List.mem_append_right _ (by simp))

/-- Definitions as they are read back. In the statement about a target each of them is an argument
just when every text of the statement can stand without quotes. In the statement about a source
they are items of one argument in quotes, and are kept just when no text has a double quote and no
definition is empty or has a semicolon. -/
theorem definitions_read_back_iff (target : String) (scope : Scope)
    (parent : Option (ParentPart (List Define))) (defines : List Define)
    (properties : FileProperties) :
    (argumentItems? (compileDefinitions target scope parent defines).text =
        some (commandCall "target_compile_definitions"
          (target :: scope.spelling :: parentDefinitions parent ++ defines.map Define.text)) ↔
      ∀ text ∈ target :: parentDefinitions parent ++ defines.map Define.text, IsArgument text) ∧
    (argumentItems? (sourceFileProperties properties).text =
          some (flagCalls properties ++ propertyCall properties) ∧
        listItems (Define.joinTexts ";" properties.compileDefinitions) =
          properties.compileDefinitions.map Define.text ↔
      (∀ text ∈ quotedTexts properties, '"' ∉ text.toList) ∧
        ∀ define ∈ properties.compileDefinitions, define.text ≠ "" ∧ ';' ∉ define.text.toList) := by
  constructor
  case left =>
    constructor
    · intro read
      have words : ∀ text ∈ target :: parentDefinitions parent ++ defines.map Define.text,
          .text text ∈ commandCall "target_compile_definitions"
            (target :: scope.spelling :: parentDefinitions parent ++
              defines.map Define.text) := by
        intro text member
        refine mem_commandCall ?_
        rcases List.mem_cons.mp member with rfl | other
        · exact List.mem_cons_self
        · exact List.mem_cons_of_mem _ (List.mem_cons_of_mem _ other)
      have noQuote := quote_not_mem_compileDefinitions scope fun text member =>
        unquoted_of_read read (words text member)
      exact fun text member => isArgument_of_read read noQuote (words text member)
    · exact argumentItems?_compileDefinitions
  case right =>
    constructor
    · rintro ⟨read, listed⟩
      refine ⟨unquoted_of_properties fun text member => unquoted_of_read read member, ?_⟩
      intro define member
      exact listItems_intercalate.mp listed _ (List.mem_map_of_mem member)
    · rintro ⟨unquoted, single⟩
      refine ⟨argumentItems?_text (linesReadAs_sourceFileProperties unquoted), ?_⟩
      refine listItems_intercalate.mpr fun text member => ?_
      rcases List.mem_map.mp member with ⟨define, inside, rfl⟩
      exact single define inside

/-- A blank in a value makes two arguments of it, and a semicolon two items. -/
theorem definitions_fall_apart :
    argumentItems? (compileDefinitions "Unit" .shared none [⟨"NAME", some "one two"⟩]).text =
        some (commandCall "target_compile_definitions" ["Unit", "PUBLIC", "NAME=one", "two"]) ∧
      argumentItems? (sourceFileProperties
          { file := "unit.c", language := .c,
            compileDefinitions := [⟨"NAME", some "one two"⟩, ⟨"LIST", some "1;2"⟩] }).text =
        some (commandCall "set_source_files_properties"
          ["unit.c", "PROPERTIES", "COMPILE_DEFINITIONS", "NAME=one two;LIST=1;2"]) ∧
      listItems "NAME=one two;LIST=1;2" = ["NAME=one two", "LIST=1", "2"] := by
  decide +kernel

end SolutionLists.Lists
