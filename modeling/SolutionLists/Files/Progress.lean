import SolutionLists.Files.Update
import SolutionLists.Log

namespace SolutionLists.FileTree

/-! Work on many files. It ends with the first failure, and what has been done until
then stays done. -/

inductive Deed where
  | removed (path : String)
  | wrote (path text : String)
deriving DecidableEq, Repr

structure Progress where
  tree : FileTree
  deeds : List Deed := []
  log : Log := []
  failure : Option Failure := none

namespace Progress

def following (progress : Progress) (deeds : List Deed) (log : Log) : Progress :=
  { progress with deeds := deeds ++ progress.deeds, log := log ++ progress.log }

def written (progress : Progress) : List String :=
  progress.deeds.filterMap fun
    | .wrote path _ => some path
    | .removed _ => none

end Progress

def clearAll (tree : FileTree) : List String → Progress
  | [] => { tree }
  | path :: rest =>
      if tree.has path then
        let log : Log := [.info ("removing " ++ path)]
        let outcome := tree.clearDirectory path
        match outcome.result with
        | .error failure => { tree := outcome.tree, log, failure := some failure }
        | .ok () => (clearAll outcome.tree rest).following [.removed path] log
      else clearAll tree rest

def updateAll (tree : FileTree) : List (String × String) → Progress
  | [] => { tree }
  | (path, text) :: rest =>
      let outcome := tree.update path text
      match outcome.result with
      | .error failure => { tree := outcome.tree, failure := some failure }
      | .ok true => (updateAll outcome.tree rest).following [.wrote path text] []
      | .ok false =>
          (updateAll outcome.tree rest).following [] [.debug ("unchanged: " ++ path)]

end SolutionLists.FileTree
