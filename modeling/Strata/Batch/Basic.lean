import Strata.Batch.Discovery
import Strata.Batch.Pool
import Strata.Intake.FileRun

/-!
# Batches

A batch runs over many files, one by one and each on its own, with several workers. Its outcome
lists the files in the order in which they were given, whichever worker ran over them, and when.

* `runBatch`: a batch over given files;
* `runDirectory`: a batch over the source files of a directory;
* `BatchOutcome.summary`: how many files there were, in one line.
-/

namespace Strata

structure BatchOutcome where
  /-- The number of files given. -/
  discovered : Nat
  /-- The files that were run over. -/
  succeeded : List (String × Outcome)
  /-- The files that could not be run over. -/
  failed : List (String × Failure)
  /-- How long the batch took. -/
  nanos : Nat

namespace BatchOutcome

/-- The number of files that were taken. -/
def processed (b : BatchOutcome) : Nat := b.succeeded.length + b.failed.length

def errorCount (b : BatchOutcome) : Nat := b.succeeded.foldr (fun (_, o) n => o.errorCount + n) 0

/-- Whether a file could not be run over, or a text has an error. -/
def hasFailures (b : BatchOutcome) : Bool := !b.failed.isEmpty || 0 < b.errorCount

/-- The percentage of the files taken that were run over. -/
def successRate (b : BatchOutcome) : Binary :=
  if b.processed = 0 then .zero
  else ((Binary.ofNat b.succeeded.length).div (.ofNat b.processed)).mul (.ofNat 100)

/-- How many files there were and how long they took. -/
def summary (b : BatchOutcome) : String :=
  "Batch complete: " ++ toString b.processed ++ " files processed, " ++
    toString b.succeeded.length ++ " successful (" ++ b.successRate.fixed 1 ++ "%), " ++
    toString b.failed.length ++ " failed, " ++ toString b.errorCount ++ " error diagnostics, " ++
    (secondsOf b.nanos).fixed 2 ++ "s total"

end BatchOutcome

/-- What a run over a file told. -/
abbrev FileResult := Told (Except Failure Outcome)

/-- The tasks of a batch: a run over each file. -/
def fileTasks (disk : Disk) (preferences : Preferences) (profile : Profile) (plan : BatchPlan)
    (files : List String) : Tasks FileResult where
  count := files.length
  result number := runFileAs number disk preferences profile (files.getD number "")
  wentWrong told := !told.result.isOk
  stopsEarly := plan.failFast

/-- The number of workers that a batch over some files needs. -/
def neededWorkers (plan : BatchPlan) (files : List String) : Nat :=
  max 1 (min plan.effectiveWorkers files.length)

/-- The outcome of a batch from the results of its files. -/
def BatchOutcome.ofResults (files : List String) (results : List (Nat × FileResult)) :
    BatchOutcome where
  discovered := files.length
  succeeded := results.filterMap fun (number, told) =>
    told.result.toOption.map fun o => (files.getD number "", o)
  failed := results.filterMap fun (number, told) =>
    match told.result with
    | .ok _ => none
    | .error f => some (files.getD number "", f)
  nanos := 0

def BatchOutcome.notices (b : BatchOutcome) (plan : BatchPlan) (workers : Nat) : List Notice :=
  let stopped :=
    if plan.failFast ∧ b.failed ≠ [] then
      [.warning "Fail-fast stopped the batch early"
        [("processed", toString b.processed), ("discovered", toString b.discovered)]]
    else []
  stopped ++ [.success "I050" "Batch processing complete" [
    ("duration_ms", (millisOf b.nanos).fixed 3),
    ("files_processed", toString b.processed),
    ("successful", toString b.succeeded.length),
    ("failed", toString b.failed.length),
    ("threads_used", toString workers)]]

def runBatch (disk : Disk) (preferences : Preferences) (profile : Profile) (plan : BatchPlan)
    (files : List String) : Told BatchOutcome :=
  let workers := neededWorkers plan files
  let results := (Pool.ofTasks (fileTasks disk preferences profile plan files) workers).inOrder
  let outcome := BatchOutcome.ofResults files results
  let said := results.flatMap fun (_, told) => told.said
  ⟨said ++ (outcome.notices plan workers).map .note, outcome⟩

/-- A batch over the source files of a directory. -/
def runDirectory (disk : Disk) (preferences : Preferences) (profile : Profile) (plan : BatchPlan)
    (dir : String) : Told (Except BatchError BatchOutcome) :=
  let start := Entry.note (.info "Starting batch processing" [
    ("directory", dir), ("recursive", toString plan.recursive),
    ("threads", toString plan.effectiveWorkers)])
  let files := discover disk plan dir
  match files.result with
  | .error e => ⟨start :: files.said, .error e⟩
  | .ok files' =>
    let batch := runBatch disk preferences profile plan files'
    ⟨start :: files.said ++ batch.said, .ok batch.result⟩

end Strata
