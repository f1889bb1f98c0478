import SolutionLists.Text.Search

namespace SolutionLists.CommandLine

/-! The arguments of the program. Options stand anywhere among the inputs, up to the
argument `--`. -/

/-! ## Options -/

inductive Flag where
  | version
  | quiet
  | debug
  | verbose
  | clean
deriving DecidableEq, Repr

namespace Flag

def list : List Flag := [version, quiet, debug, verbose, clean]

def name : Flag → String
  | version => "version"
  | quiet => "quiet"
  | debug => "debug"
  | verbose => "verbose"
  | clean => "clean"

def letter : Flag → Char
  | version => 'V'
  | quiet => 'q'
  | debug => 'd'
  | verbose => 'v'
  | clean => 'C'

def description : Flag → String
  | version => "Print version"
  | quiet => "Suppress output messages except build invocations"
  | debug => "Enable debug messages"
  | verbose => "Enable verbose messages from toolchain builds"
  | clean => "Remove intermediate and output directories"

def ofName? (name : String) : Option Flag :=
  list.find? (·.name = name)

def ofLetter? (letter : Char) : Option Flag :=
  list.find? (·.letter = letter)

end Flag

inductive Shell where
  | bash
  | elvish
  | fish
  | powershell
  | zsh
deriving DecidableEq, Repr

namespace Shell

def list : List Shell := [bash, elvish, fish, powershell, zsh]

def name : Shell → String
  | bash => "bash"
  | elvish => "elvish"
  | fish => "fish"
  | powershell => "powershell"
  | zsh => "zsh"

def ofName? (name : String) : Option Shell :=
  list.find? (·.name = name)

end Shell

inductive ValueOption where
  | context
  | completions
deriving DecidableEq, Repr

namespace ValueOption

def list : List ValueOption := [context, completions]

def name : ValueOption → String
  | context => "context"
  | completions => "completions"

def valueName : ValueOption → String
  | context => "PATTERN"
  | completions => "SHELL"

def label (option : ValueOption) : String :=
  "--" ++ option.name ++ " <" ++ option.valueName ++ ">"

def ofName? (name : String) : Option ValueOption :=
  list.find? (·.name = name)

end ValueOption

/-! ## Reading -/

structure Arguments where
  inputs : List String := []
  flags : List Flag := []
  patterns : List String := []
  completions : Option Shell := none
deriving DecidableEq, Repr

inductive Stop where
  | help
  | usage (fault : String)
deriving DecidableEq, Repr

namespace Stop

def unexpected (argument : String) : Stop :=
  usage ("unexpected argument '" ++ argument ++ "' found")

def repeated (argument : String) : Stop :=
  usage ("the argument '" ++ argument ++ "' cannot be used multiple times")

def missingValue (argument : String) : Stop :=
  usage ("a value is required for '" ++ argument ++ "' but none was supplied")

def invalidValue (value argument : String) : Stop :=
  usage ("invalid value '" ++ value ++ "' for '" ++ argument ++ "'")

def excessValue (value argument : String) : Stop :=
  usage ("unexpected value '" ++ value ++ "' for '" ++ argument ++
    "' found; no more were expected")

end Stop

inductive Token where
  | endOfOptions
  | long (name : String) (value : Option String)
  | letters (letters : List Char)
  | plain (text : String)
deriving DecidableEq, Repr

/-- A single dash is an ordinary text. -/
def Token.ofText (text : String) : Token :=
  match text.toList with
  | ['-', '-'] => endOfOptions
  | '-' :: '-' :: rest =>
      match Text.splitOnce '=' (String.ofList rest) with
      | some (name, value) => long name (some value)
      | none => long (String.ofList rest) none
  | '-' :: letter :: rest => letters (letter :: rest)
  | _ => plain text

namespace Arguments

def has (arguments : Arguments) (flag : Flag) : Bool :=
  flag ∈ arguments.flags

def addInput (arguments : Arguments) (input : String) : Except Stop Arguments :=
  if input = "" then .error (.missingValue "[INDEX]...")
  else .ok { arguments with inputs := arguments.inputs ++ [input] }

def raise (arguments : Arguments) (flag : Flag) : Except Stop Arguments :=
  if arguments.has flag then .error (.repeated ("--" ++ flag.name))
  else .ok { arguments with flags := arguments.flags ++ [flag] }

def raiseLetter (arguments : Arguments) (letter : Char) : Except Stop Arguments :=
  if letter = 'h' then .error .help
  else
    match Flag.ofLetter? letter with
    | some flag => arguments.raise flag
    | none => .error (.unexpected (String.ofList ['-', letter]))

def setValue (arguments : Arguments) (option : ValueOption) (value : String) :
    Except Stop Arguments :=
  match option with
  | .context => .ok { arguments with patterns := arguments.patterns ++ [value] }
  | .completions =>
      match Shell.ofName? value, arguments.completions with
      | none, _ => .error (.invalidValue value option.label)
      | some _, some _ => .error (.repeated option.label)
      | some shell, none => .ok { arguments with completions := some shell }

def takeLong (arguments : Arguments) (name : String) : Option String → Except Stop Arguments
  | none =>
      if name = "help" then .error .help
      else
        match Flag.ofName? name with
        | some flag => arguments.raise flag
        | none => .error (.unexpected ("--" ++ name))
  | some value =>
      match ValueOption.ofName? name with
      | some option => arguments.setValue option value
      | none =>
          if name = "help" ∨ (Flag.ofName? name).isSome then
            .error (.excessValue value ("--" ++ name))
          else .error (.unexpected ("--" ++ name))

/-- Read the arguments in their order; the first fault counts. The value of an option
stands in the same argument or in the next one. -/
def readFrom (arguments : Arguments) : List String → Except Stop Arguments
  | [] => .ok arguments
  | text :: rest =>
      match Token.ofText text with
      | .endOfOptions => rest.foldlM addInput arguments
      | .plain input => do readFrom (← arguments.addInput input) rest
      | .letters letters => do readFrom (← letters.foldlM raiseLetter arguments) rest
      | .long name value =>
          match value, ValueOption.ofName? name with
          | none, some option =>
              match rest with
              | [] => .error (.missingValue option.label)
              | next :: rest =>
                  match Token.ofText next with
                  | .plain value => do readFrom (← arguments.setValue option value) rest
                  | _ => .error (.missingValue option.label)
          | value, _ => do readFrom (← arguments.takeLong name value) rest

def read (texts : List String) : Except Stop Arguments :=
  readFrom {} texts

example : Token.ofText "--context=p.*" = .long "context" (some "p.*") := by decide
example : (read ["-qd", "x", "--", "-v"]).toOption =
    some { inputs := ["x", "-v"], flags := [.quiet, .debug] } := by decide
example : (read ["-q", "--quiet"]).toOption = none := by decide

end Arguments

end SolutionLists.CommandLine
