import Strata.Batch.Basic
import Strata.Proofs.Pool

/-!
# Batches in any order

Each file of a batch has its own result, whichever worker runs over it, and when. Once all workers
have come to their end, the outcome holds the first files of the batch in their order, each once,
split into those that were run over and those that could not be; these are all files unless the
batch was to stop early and a file went wrong. So whether a batch has failures depends on its files
alone.

* `BatchOutcome.ofResults_upTo`: the outcome from the results of the first files;
* `settled_of_finished`: the outcome of workers that have come to their end;
* `hasFailures_runBatch`: whether a batch has failures.
-/

namespace Strata

variable {files : List String} {result : Nat → FileResult} {failFast : Bool} {k : Nat}

/-- The tasks of a batch with a given result for each file. -/
def resultTasks (files : List String) (result : Nat → FileResult) (failFast : Bool) :
    Tasks FileResult where
  count := files.length
  result := result
  wentWrong told := !told.result.isOk
  stopsEarly := failFast

/-- The files of a batch with their results. -/
def withResults (files : List String) (result : Nat → FileResult) : List (String × FileResult) :=
  files.mapIdx fun number file => (file, result number)

/-- A file that was run over. -/
def succeeded? : String × FileResult → Option (String × Outcome)
  | (file, told) => told.result.toOption.map fun o => (file, o)

/-- A file that could not be run over. -/
def failed? : String × FileResult → Option (String × Failure)
  | (file, told) =>
    match told.result with
    | .ok _ => none
    | .error f => some (file, f)

/-- Whether a file could not be run over, or its text has an error. -/
def fails : String × FileResult → Bool
  | (_, told) =>
    match told.result with
    | .ok o => 0 < o.errorCount
    | .error _ => true

/-! ## Outcomes -/

theorem withResults_take (hk : k ≤ files.length) :
    (withResults files result).take k =
      (List.range k).map fun number => (files.getD number "", result number) := by
  refine List.ext_getElem ?_ ?_
  · simp [withResults, hk]
  · intro number hlt hlt'
    have hnumber : number < files.length := by
      simp only [List.length_map, List.length_range] at hlt'
      omega
    simp [withResults, List.getD_eq_getElem?_getD, hnumber]

/-- The outcome from the results of the first files lists those files, split by their results. -/
theorem BatchOutcome.ofResults_upTo (hk : k ≤ files.length) :
    BatchOutcome.ofResults files ((resultTasks files result failFast).upTo k) =
      ⟨files.length, ((withResults files result).take k).filterMap succeeded?,
        ((withResults files result).take k).filterMap failed?, 0⟩ := by
  rw [withResults_take hk, List.filterMap_map, List.filterMap_map, ofResults, Tasks.upTo,
    List.filterMap_map, List.filterMap_map]
  rfl

/-- Every file is either run over or not. -/
theorem length_filterMap_succeeded?_add (runs : List (String × FileResult)) :
    (runs.filterMap succeeded?).length + (runs.filterMap failed?).length = runs.length := by
  induction runs with
  | nil => rfl
  | cons run runs ih =>
    rcases run with ⟨file, said, result⟩
    cases result with
    | ok o =>
      simp only [List.filterMap_cons, succeeded?, failed?, Except.toOption, Option.map_some,
        List.length_cons]
      omega
    | error f =>
      simp only [List.filterMap_cons, succeeded?, failed?, Except.toOption, Option.map_none,
        List.length_cons]
      omega

/-- A batch has failures if a file could not be run over or a run found errors. -/
theorem hasFailures_iff {b : BatchOutcome} :
    b.hasFailures ↔ b.failed ≠ [] ∨ 0 < b.errorCount := by
  simp [BatchOutcome.hasFailures]

/-- An outcome has failures where one of its files has. -/
theorem hasFailures_filterMap (runs : List (String × FileResult)) (discovered nanos : Nat) :
    (BatchOutcome.mk discovered (runs.filterMap succeeded?) (runs.filterMap failed?)
      nanos).hasFailures ↔ runs.any fails := by
  induction runs with
  | nil => exact Iff.rfl
  | cons run runs ih =>
    rcases run with ⟨file, said, result⟩
    rw [hasFailures_iff] at ih
    rw [hasFailures_iff, List.any_cons, Bool.or_eq_true, ← ih]
    cases result with
    | ok o =>
      have hfails : fails (file, ⟨said, .ok o⟩) ↔ 0 < o.errorCount := decide_eq_true_iff
      rw [hfails]
      change _ ∨ 0 < o.errorCount + _ ↔ _
      rw [Nat.add_pos_iff_pos_or_pos]
      exact or_left_comm
    | error f =>
      have hfailed : ((file, (⟨said, .error f⟩ : FileResult)) :: runs).filterMap failed? ≠ [] :=
        List.cons_ne_nil _ _
      exact iff_of_true (.inl hfailed) (.inl rfl)

/-- A task went wrong where its file could not be run over. -/
theorem exists_failed?_of_wentWrong {number : Nat} (hk : k ≤ files.length) (hnumber : number < k)
    (hwrong : (resultTasks files result failFast).wentWrong (result number)) :
    ∃ run ∈ (withResults files result).take k, ∃ failure, failed? run = some failure := by
  refine ⟨(files.getD number "", result number), ?_, ?_⟩
  · rw [withResults_take hk]
    exact List.mem_map.2 ⟨number, List.mem_range.2 hnumber, rfl⟩
  · cases hresult : (result number).result with
    | ok o => simp [resultTasks, hresult, Except.isOk, Except.toBool] at hwrong
    | error f => exact ⟨(files.getD number "", f), by simp only [failed?, hresult]⟩

theorem fails_of_failed? {run : String × FileResult} {failure : String × Failure}
    (h : failed? run = some failure) : fails run := by
  rcases run with ⟨file, said, result⟩
  cases result with
  | ok o => cases h
  | error f => rfl

/-! ## Workers at their end -/

/-- The workers of a batch after some steps. -/
def workersAfter (files : List String) (result : Nat → FileResult) (failFast : Bool)
    (workers : Nat) (order : List Nat) : Pool FileResult :=
  (Pool.start workers).follow (resultTasks files result failFast) order

/-- No step adds or removes a worker. -/
theorem length_workersAfter (files : List String) (result : Nat → FileResult) (failFast : Bool)
    (workers : Nat) (order : List Nat) :
    (workersAfter files result failFast workers order).workers.length = workers := by
  rw [workersAfter, Pool.length_workers_follow, Pool.start, List.length_replicate]

/-- Whatever the order of the steps, the workers of a batch are sound. -/
theorem sound_workersAfter (files : List String) (result : Nat → FileResult) (failFast : Bool)
    (workers : Nat) (order : List Nat) :
    (workersAfter files result failFast workers order).Sound (resultTasks files result failFast) :=
  Pool.sound_follow (Pool.sound_start _ _) order

def takenAfter (files : List String) (result : Nat → FileResult) (failFast : Bool)
    (workers : Nat) (order : List Nat) : Nat :=
  (workersAfter files result failFast workers order).taken (resultTasks files result failFast)

/-- Once a step has raised the flag, every other worker takes at most one more file. -/
theorem takenAfter_le {before after : List Nat} {place workers : Nat}
    (hgo : (workersAfter files result failFast workers before).stopped = false)
    (hraised : (workersAfter files result failFast workers (before ++ [place])).stopped) :
    takenAfter files result failFast workers (before ++ place :: after) ≤
      takenAfter files result failFast workers (before ++ [place]) + (workers - 1) := by
  have hle := Pool.taken_follow_le (resultTasks files result failFast)
    (workersAfter files result failFast workers before) place after hgo
  rw [length_workersAfter] at hle
  rw [workersAfter, Pool.follow_append] at hraised
  rw [takenAfter, takenAfter, workersAfter, workersAfter, Pool.follow_append, Pool.follow_append]
  exact hle hraised

/-- Workers at their end have taken all files, or one of those taken went wrong. -/
theorem takenAfter_of_finished {workers : Nat} {order : List Nat} (hworkers : 1 ≤ workers)
    (hfinished : (workersAfter files result failFast workers order).Finished) :
    takenAfter files result failFast workers order = files.length ∨ failFast ∧
      ∃ run ∈ (withResults files result).take (takenAfter files result failFast workers order),
        ∃ failure, failed? run = some failure := by
  have hne : (workersAfter files result failFast workers order).workers ≠ [] := by
    rw [← List.length_pos_iff, length_workersAfter]
    exact hworkers
  rcases Pool.taken_of_finished (sound_workersAfter _ _ _ _ _) hfinished hne with
    hall | ⟨hearly, number, hnumber, hwrong⟩
  · exact .inl hall
  · exact .inr ⟨hearly, exists_failed?_of_wentWrong (Nat.min_le_right _ _) hnumber hwrong⟩

/-- The outcome of workers at their end. -/
theorem ofResults_of_finished {workers : Nat} {order : List Nat}
    (hfinished : (workersAfter files result failFast workers order).Finished) :
    BatchOutcome.ofResults files (workersAfter files result failFast workers order).inOrder =
      ⟨files.length,
        ((withResults files result).take
          (takenAfter files result failFast workers order)).filterMap succeeded?,
        ((withResults files result).take
          (takenAfter files result failFast workers order)).filterMap failed?, 0⟩ := by
  rw [Pool.inOrder_of_finished (sound_workersAfter _ _ _ _ _) hfinished]
  exact BatchOutcome.ofResults_upTo (Nat.min_le_right _ _)

/-- The outcome of workers at their end has failures where one of all files has one: a file that was
not taken was left out for one that has. -/
theorem hasFailures_of_finished {workers : Nat} {order : List Nat} (hworkers : 1 ≤ workers)
    (hfinished : (workersAfter files result failFast workers order).Finished) :
    (BatchOutcome.ofResults files
        (workersAfter files result failFast workers order).inOrder).hasFailures =
      (withResults files result).any fails := by
  rw [ofResults_of_finished hfinished, Bool.eq_iff_iff, hasFailures_filterMap]
  rcases takenAfter_of_finished hworkers hfinished with
    hall | ⟨-, run, hrun, failure, hfailure⟩
  · have hlength : (withResults files result).length ≤ files.length :=
      Nat.le_of_eq List.length_mapIdx
    rw [hall, List.take_of_length_le hlength]
  · have hfails := fails_of_failed? hfailure
    exact iff_of_true (List.any_eq_true.2 ⟨run, hrun, hfails⟩)
      (List.any_eq_true.2 ⟨run, List.mem_of_mem_take hrun, hfails⟩)

/-- The workers of a batch that runs come to their end. -/
theorem exists_order_runBatch (disk : Disk) (preferences : Preferences) (profile : Profile)
    (plan : BatchPlan) (files : List String) (result : Nat → FileResult)
    (hresult : ∀ number, result number =
      runFileAs number disk preferences profile (files.getD number "")) :
    ∃ order,
      (workersAfter files result plan.failFast (neededWorkers plan files) order).Finished ∧
      (runBatch disk preferences profile plan files).result = .ofResults files
        (workersAfter files result plan.failFast (neededWorkers plan files) order).inOrder := by
  have htasks : fileTasks disk preferences profile plan files =
      resultTasks files result plan.failFast := by
    rw [funext hresult]
    rfl
  rcases Pool.exists_order_ofTasks (resultTasks files result plan.failFast)
    (neededWorkers plan files) with ⟨order, horder, hfinished⟩
  rw [horder] at hfinished
  refine ⟨order, hfinished, ?_⟩
  rw [runBatch, htasks, horder]
  rfl

/-- Whether a batch has failures depends on its files, and not on its plan. -/
theorem hasFailures_runBatch (disk : Disk) (preferences : Preferences) (profile : Profile)
    (plan : BatchPlan) (files : List String) :
    (runBatch disk preferences profile plan files).result.hasFailures =
      (withResults files fun number =>
        runFileAs number disk preferences profile (files.getD number "")).any fails := by
  rcases exists_order_runBatch disk preferences profile plan files _ fun _ => rfl with
    ⟨order, hfinished, houtcome⟩
  rw [houtcome]
  exact hasFailures_of_finished (Nat.le_max_left _ _) hfinished

/-- What a batch comes to whose workers have come to their end. -/
structure Settled (files : List String) (result : Nat → FileResult) (failFast : Bool)
    (workers : Nat) (order : List Nat) (outcome : BatchOutcome) : Prop where
  /-- Each of the first files was handed in once, with its own result, and no other. -/
  handed : (workersAfter files result failFast workers order).results.Perm
    ((List.range outcome.processed).map fun number => (number, result number))
  processed : outcome.processed ≤ files.length
  /-- The files that were run over are those among the first files, in their order. -/
  succeeded : outcome.succeeded =
    ((withResults files result).take outcome.processed).filterMap succeeded?
  /-- The files that could not be run over are those among the first files, in their order. -/
  failed : outcome.failed = ((withResults files result).take outcome.processed).filterMap failed?
  /-- The first files are all files, unless the batch was to stop early and one went wrong. -/
  complete : failFast = false ∨ outcome.failed = [] → outcome.processed = files.length
  /-- Once a step has raised the flag, every other worker takes at most one more file. -/
  stops : ∀ before place after, order = before ++ place :: after →
    (workersAfter files result failFast workers before).stopped = false →
    (workersAfter files result failFast workers (before ++ [place])).stopped = true →
    outcome.processed ≤
      takenAfter files result failFast workers (before ++ [place]) + (workers - 1)
  /-- There are failures where one of all files has one. -/
  hasFailures : outcome.hasFailures = (withResults files result).any fails

/-- Once all workers have come to their end, the outcome holds the first files, each once and in
their order; all files, unless the batch was to stop early and one of the first went wrong. -/
theorem settled_of_finished (files : List String) (result : Nat → FileResult) (failFast : Bool)
    (workers : Nat) (order : List Nat) (hworkers : 1 ≤ workers)
    (hfinished : (workersAfter files result failFast workers order).Finished) :
    Settled files result failFast workers order
      (.ofResults files (workersAfter files result failFast workers order).inOrder) := by
  have hsound := sound_workersAfter files result failFast workers order
  have hle : takenAfter files result failFast workers order ≤ files.length := Nat.min_le_right _ _
  have hall := takenAfter_of_finished hworkers hfinished
  generalize htaken : takenAfter files result failFast workers order = k at hle hall
  have houtcome := ofResults_of_finished hfinished
  rw [htaken] at houtcome
  have hprocessed : (BatchOutcome.ofResults files
      (workersAfter files result failFast workers order).inOrder).processed = k := by
    rw [houtcome, BatchOutcome.processed, length_filterMap_succeeded?_add, List.length_take,
      withResults, List.length_mapIdx]
    exact Nat.min_eq_left hle
  constructor
  case handed =>
    rw [hprocessed, ← htaken]
    exact Pool.perm_results_of_finished hsound hfinished
  case processed => rwa [hprocessed]
  case succeeded => rw [hprocessed, houtcome]
  case failed => rw [hprocessed, houtcome]
  case complete =>
    intro hcomplete
    rw [hprocessed]
    rcases hall with hall | ⟨hearly, run, hrun, failure, hfailure⟩
    · exact hall
    · rcases hcomplete with hlate | hnone
      · rw [hlate] at hearly
        cases hearly
      · rw [houtcome] at hnone
        rw [List.filterMap_eq_nil_iff.1 hnone run hrun] at hfailure
        cases hfailure
  case stops =>
    intro before place after horder hgo hraised
    rw [hprocessed, ← htaken, horder]
    exact takenAfter_le hgo hraised
  case hasFailures => exact hasFailures_of_finished hworkers hfinished

/-- Two workers over four files, of which the second cannot be had: the other worker has looked at
the flag before it is raised and takes one more file, and the last one is left out. -/
theorem settled_of_finished_early :
    ∃ outcome : BatchOutcome, outcome.processed = 3 ∧
      Settled ["a", "b", "c", "d"]
        (fun number => ⟨[], if number = 1 then .error (.intake (.missing "b")) else
          .ok ⟨none, "", [], [], default, [], .empty, 0⟩⟩)
        true 2 [0, 0, 0, 0, 0, 0, 1, 0, 0, 1, 0, 0, 1, 1, 1] outcome := by
  have hsettled := settled_of_finished ["a", "b", "c", "d"]
    (fun number => ⟨[], if number = 1 then .error (.intake (.missing "b")) else
      .ok ⟨none, "", [], [], default, [], .empty, 0⟩⟩)
    true 2 [0, 0, 0, 0, 0, 0, 1, 0, 0, 1, 0, 0, 1, 1, 1] (by decide) (by
      rw [Pool.Finished, show (workersAfter ..).workers = [.done, .done] from rfl]
      simp)
  refine ⟨_, ?_, hsettled⟩
  have hlength := hsettled.handed.length_eq
  rw [List.length_map, List.length_range] at hlength
  exact hlength.symm

end Strata
