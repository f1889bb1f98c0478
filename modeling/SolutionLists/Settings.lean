import SolutionLists.Description.Reading
import SolutionLists.Environment
import SolutionLists.Files.Tree
import SolutionLists.Log
import SolutionLists.Toml.Document

namespace SolutionLists.Configuration

/-! Where settings are kept: in a file of the user and in one of the solution, whose
settings win. -/

def ofText? (text : String) : Option Configuration :=
  (Toml.document? text).bind (Document.Reading.ofValue? Description.readConfiguration)

/-- The settings of a file. Without the file they are the default ones, and so they are,
with a warning, where the file cannot be read. -/
def ofFile (tree : FileTree) (path : String) : Configuration × Log :=
  if tree.has path then
    match (tree.read path).toOption.bind ofText? with
    | some configuration => (configuration, [])
    | none => ({}, [.warning ("failed to load config from " ++ path)])
  else ({}, [])

def userFile? (user : UserDirectories) : Option String :=
  user.settings.map fun settings =>
    Path.join (Path.join settings "cbuild2cmake") "config.toml"

def solutionFile (solutionDirectory : String) : String :=
  Path.join (Path.join solutionDirectory ".cbuild2cmake") "config.toml"

def ofFiles (tree : FileTree) (paths : List String) : Configuration × Log :=
  let layers := paths.map (ofFile tree)
  ((layers.map (·.1)).foldl merge {}, layers.flatMap (·.2))

def load (tree : FileTree) (userFile : Option String) (solutionFile : String) :
    Configuration × Log :=
  ofFiles tree (userFile.toList ++ [solutionFile])

end SolutionLists.Configuration
