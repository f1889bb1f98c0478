import SolutionLists.CommandLine.Run

namespace SolutionLists.CommandLine

/-! The program. It reads the files that a run looks at, lets the run take place on
what has been read, and then changes the files as the run did. -/

def processEnvironment : IO Environment := do
  let bytes ← IO.FS.readBinFile "/proc/self/environ"
  let text := (String.fromUTF8? bytes).getD ""
  return (Text.pieces '\x00' text).filterMap (Text.splitOnce '=')

def lookAt (tree : FileTree) (path : String) : IO FileTree := do
  let target := System.mkFilePath [path]
  match tree.walk path with
  | .error _ => return tree
  | .ok place =>
      if ← target.isDir then return tree.put place .directory
      else if ← target.pathExists then
        let text ← try IO.FS.readFile target catch _ => pure ""
        return tree.put place (.file text)
      else return tree

def lookInto (tree : FileTree) (path : String) : IO FileTree := do
  let mut tree := tree
  let target := System.mkFilePath [path]
  if ← target.isDir then
    for entry in ← target.readDir do
      if let .ok place := tree.walk (Path.join path entry.fileName) then
        if (tree.find? place).isNone then
          let kind := if ← entry.path.isDir then FileEntry.directory else .file ""
          tree := tree.put place kind
  return tree

def explore (tree : FileTree) (path : String) : IO FileTree := do
  let segments := path.toList.splitOn '/'
  let above := (List.range segments.length).map fun count =>
    String.ofList (['/'].intercalate (segments.take (count + 1)))
  lookInto (← above.foldlM lookAt tree) path

def perform : FileTree.Deed → IO Unit
  | .removed path => IO.FS.removeDirAll (System.mkFilePath [path])
  | .wrote path text => do
      if let some above := Path.dropLastComponent? path then
        IO.FS.createDirAll (System.mkFilePath [above])
      IO.FS.writeFile (System.mkFilePath [path]) text

/-- The invocation of this process with all files that the run looks at. Each round
finds the paths that the files of the round before lead to: settings and the index,
descriptions and toolchains, and the lists that are there already. -/
def processInvocation (arguments : List String) : IO Invocation := do
  let directory := toString (← IO.currentDir)
  let bare : FileTree :=
    { workingDirectory := ((Path.components directory).drop 1).reverse.map Path.Component.toText }
  let mut invocation : Invocation :=
    { tree := ← explore bare directory
      environment := ← processEnvironment
      programDirectory := Path.dropLastComponent? (toString (← IO.appPath))
      arguments }
  for _ in [1, 2, 3] do
    let tree ← (reach invocation).foldlM explore invocation.tree
    invocation := { invocation with tree }
  return invocation

end SolutionLists.CommandLine

open SolutionLists.CommandLine in
def main (arguments : List String) : IO UInt32 := do
  let outcome := run (← processInvocation arguments)
  outcome.deeds.forM perform
  IO.print outcome.output
  IO.eprint outcome.errorOutput
  return outcome.exitCode.toUInt32
