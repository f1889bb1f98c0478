import SolutionLists.CommandLine.Arguments

namespace SolutionLists.CommandLine

/-! What the program says about itself: its version, its usage, and completions of its
arguments for shells. -/

def programName : String := "cbuild2cmake"

def version : String := "0.1.0"

def usage : String :=
  "Usage: " ++ programName ++ " <name>.cbuild-idx.yml [options]"

def optionRows : List (Option Char × String × String) :=
  Flag.list.map (fun flag => (some flag.letter, flag.name, flag.description)) ++
    [(none, ValueOption.context.name, "Generate only the contexts matching a glob pattern"),
      (some 'h', "help", "Print help")]

/-- A row of the manual: what is typed, in a column of its own, and what it does. -/
def manualRow (typed description : String) : String :=
  let padding := String.ofList (List.replicate (23 - typed.length) ' ')
  "  " ++ typed ++ padding ++ "  " ++ description ++ "\n"

def manual : String :=
  "Generate CMakeLists from CMSIS build descriptions for embedded cross toolchains\n\n" ++
    usage ++ "\n\nArguments:\n" ++
    "  [INDEX]...  Solution build index (<name>.cbuild-idx.yml)\n\nOptions:\n" ++
    String.join (optionRows.map fun (letter, name, description) =>
      let start := (letter.map fun letter => String.ofList ['-', letter, ',', ' ']).getD "    "
      let label :=
        ((ValueOption.ofName? name).map ValueOption.label).getD ("--" ++ name)
      manualRow (start ++ label) description)

def usageText (fault : String) : String :=
  "error: " ++ fault ++ "\n\n" ++ usage ++ "\n\nFor more information, try '--help'.\n"

/-! ## Completions -/

def typedOptions : List String :=
  optionRows.flatMap fun (letter, name, _) =>
    (letter.toList.map fun letter => String.ofList ['-', letter]) ++ ["--" ++ name]

def completions : Shell → String
  | .bash =>
      "complete -o default -W \"" ++ " ".intercalate typedOptions ++ "\" " ++ programName ++ "\n"
  | .elvish =>
      "set edit:completion:arg-completer[" ++ programName ++ "] = \x7b|@words| put " ++
        " ".intercalate typedOptions ++ " \x7d\n"
  | .fish =>
      String.join (optionRows.map fun (letter, name, description) =>
        "complete -c " ++ programName ++
          String.join
            (letter.toList.map fun letter => String.ofList [' ', '-', 's', ' ', letter]) ++
          " -l " ++ name ++ " -d '" ++ description ++ "'\n")
  | .powershell =>
      "Register-ArgumentCompleter -Native -CommandName '" ++ programName ++
        "' -ScriptBlock \x7b\n  param($word)\n  @(" ++
        ", ".intercalate (typedOptions.map fun option => "'" ++ option ++ "'") ++
        ") | Where-Object \x7b $_ -like \"$word*\" \x7d\n\x7d\n"
  | .zsh =>
      "#compdef " ++ programName ++ "\n_arguments \\\n" ++
        String.join (optionRows.map fun (_, name, description) =>
          "  '--" ++ name ++ "[" ++ description ++ "]' \\\n") ++
        "  '*:index:_files'\n"

end SolutionLists.CommandLine
