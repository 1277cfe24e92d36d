import Strata.Batch.Error
import Strata.Files.Tree
import Strata.Log.Journal
import Strata.Settings.Preferences

/-!
# Finding the files of a batch

The files of a directory with certain extensions, in the order of their paths, entry by entry. A
batch may look into the directories below it as well.

* `Node.filesAt`: all files of a directory;
* `discover`: the files of a batch, or why there is no batch.
-/

namespace Strata

/-- What a user chooses for a batch. -/
structure BatchPlan where
  /-- How many workers are asked for. -/
  workers : Nat
  /-- Whether the directories below are searched too. -/
  recursive : Bool
  /-- How many files are worked on at most. -/
  maxFiles : Option Nat
  /-- Whether no more files are taken once one could not be worked on. -/
  failFast : Bool
  /-- The extensions of the files. -/
  extensions : List String
deriving DecidableEq, Repr

namespace BatchPlan

def sourceExtensions : List String := ["c", "cc", "cpp", "cxx", "h", "hh", "hpp", "hxx"]

/-- A plan for all source files of a directory and the directories below. -/
def standard (workers : Nat) : BatchPlan := ⟨workers, true, none, false, sourceExtensions⟩

/-- The number of workers, of which there is at least one. -/
def effectiveWorkers (plan : BatchPlan) : Nat := max 1 (min plan.workers Limits.workers)

/-- Whether a file is one of the batch. -/
def takes (plan : BatchPlan) (path : String) : Bool :=
  (pathExtension? path).any fun e => plan.extensions.any (IntakePreferences.sameExtension e)

end BatchPlan

mutual

/-- The paths of the files at a path. Those of a directory count if `deep` is set. -/
def Node.filesAt (deep : Bool) (path : String) : Node → List String
  | .file _ => [path]
  | .directory entries => if deep then filesIn deep path entries else []

/-- The paths of the files among the entries of a directory. -/
def filesIn (deep : Bool) (dir : String) : List (String × Node) → List String
  | [] => []
  | entry :: rest => filesOfEntry deep dir entry ++ filesIn deep dir rest

/-- The paths of the files of one entry of a directory. -/
def filesOfEntry (deep : Bool) (dir : String) : String × Node → List String
  | (name, node) => node.filesAt deep (joinPath dir name)

end

/-- The files of a directory that a plan takes, before they are counted. -/
def candidates (disk : Disk) (plan : BatchPlan) (dir : String) : Option (List String) :=
  match disk dir with
  | .ok (.directory entries) => some ((filesIn plan.recursive dir entries).filter plan.takes)
  | _ => none

def fileLimitNotice (found limit : Nat) : Notice :=
  .warning "Reached maximum file limit"
    [("files_found", toString found), ("limit", toString limit)]

def discover (disk : Disk) (plan : BatchPlan) (dir : String) :
    Told (Except BatchError (List String)) :=
  match candidates disk plan dir with
  | none =>
    let e := BatchError.missingDirectory dir
    .ofNotices [.error e.code "Batch input is not a directory" [("directory", dir)]] (.error e)
  | some [] =>
    let e := BatchError.noFiles dir
    .ofNotices [.error e.code "No source files found"
      [("directory", dir), ("extensions", String.intercalate "," plan.extensions)]] (.error e)
  | some found =>
    let limit := plan.maxFiles.getD found.length
    let warnings :=
      if limit < found.length then [fileLimitNotice found.length limit] else []
    let files := found.take limit
    if Limits.batchFiles < files.length then
      let e := BatchError.tooManyFiles files.length Limits.batchFiles
      .ofNotices (warnings ++ [.error e.code "Batch exceeds compile-time file limit"
        [("files_found", toString files.length), ("max", toString Limits.batchFiles)]]) (.error e)
    else
      .ofNotices (warnings ++ [.debug "File discovery completed"
        [("files_found", toString files.length), ("directory", dir)]]) (.ok files)

end Strata
