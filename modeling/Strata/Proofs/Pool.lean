import Mathlib.Data.List.Perm.Basic
import Strata.Batch.Pool

/-!
# Workers in any order

However the steps of some workers come one after the other, every task that was taken is in the
hands of exactly one worker or handed in exactly once, and the tasks taken are the first ones. A
worker comes to its end only when the flag is raised or no task is left, and the flag is raised only
for a task that went wrong.

* `Pool.Sound`: what holds of a pool after any steps;
* `Pool.sound_step`, `Pool.sound_follow`: one step and many steps preserve it;
* `Pool.inOrder_of_finished`: the results of workers that have come to their end;
* `Pool.taken_follow_le`: how many tasks are taken once the flag is raised;
* `Pool.exists_order_ofTasks`: workers that work one after the other come to their end.
-/

namespace Strata

variable {β : Type} {tasks : Tasks β} {p p' : Pool β} {place : Nat} {w w' : Worker β}
  {entry : Nat × β} {order : List Nat} {k : Nat}

/-- The first `k` tasks with their results. -/
def Tasks.upTo (tasks : Tasks β) (k : Nat) : List (Nat × β) :=
  (List.range k).map fun number => (number, tasks.result number)

theorem Tasks.upTo_succ (tasks : Tasks β) (k : Nat) :
    tasks.upTo (k + 1) = tasks.upTo k ++ [(k, tasks.result k)] := by
  rw [upTo, List.range_succ, List.map_append]
  rfl

/-- What a worker has taken and not handed in yet. -/
def Worker.held? (tasks : Tasks β) : Worker β → Option (Nat × β)
  | .ready | .taking | .done => none
  | .working number => some (number, tasks.result number)
  | .stopping number result | .handing number result => some (number, result)

/-- Whether a worker goes on to take a number. -/
def Worker.isTaking : Worker β → Bool
  | .taking => true
  | _ => false

namespace Pool

/-- Whether all workers have come to their end. -/
def Finished (p : Pool β) : Prop := ∀ w ∈ p.workers, w = .done

/-- The number of tasks that were taken. -/
def taken (tasks : Tasks β) (p : Pool β) : Nat := min p.next tasks.count

/-- What workers hold and what they have handed in. -/
def entries (tasks : Tasks β) (p : Pool β) : List (Nat × β) :=
  p.workers.filterMap (·.held? tasks) ++ p.results

/-- The number of workers that have looked at the flag and go on to take a number. -/
def takers (p : Pool β) : Nat := p.workers.countP (·.isTaking)

/-- What holds of a pool after any steps. -/
structure Sound (tasks : Tasks β) (p : Pool β) : Prop where
  /-- Each task taken is held or handed in exactly once, with its own result. -/
  entries : (p.entries tasks).Perm (tasks.upTo (p.taken tasks))
  /-- A worker is about to raise the flag only for a task that went wrong. -/
  stopping : ∀ number result, .stopping number result ∈ p.workers →
    tasks.stopsEarly ∧ tasks.wentWrong result
  /-- The flag is raised only for a task that went wrong. -/
  stopped : p.stopped → tasks.stopsEarly ∧ ∃ entry ∈ p.entries tasks, tasks.wentWrong entry.2
  /-- A worker comes to its end only at a flag or where no task is left. -/
  done : .done ∈ p.workers → p.stopped ∨ tasks.count ≤ p.next

/-! ## One step -/

/-- The moves of the worker at a place. -/
inductive Move (tasks : Tasks β) (p : Pool β) (place : Nat) : Pool β → Prop
  /-- There is no worker, or it has come to its end. -/
  | rest (h : p.isDone place) : Move tasks p place p
  | quit (h : p.workers[place]? = some .ready) (hstopped : p.stopped) :
      Move tasks p place (p.setWorker place .done)
  | look (h : p.workers[place]? = some .ready) (hgo : p.stopped = false) :
      Move tasks p place (p.setWorker place .taking)
  | take (h : p.workers[place]? = some .taking) (hlt : p.next < tasks.count) :
      Move tasks p place ({ p with next := p.next + 1 }.setWorker place (.working p.next))
  | leave (h : p.workers[place]? = some .taking) (hle : tasks.count ≤ p.next) :
      Move tasks p place ({ p with next := p.next + 1 }.setWorker place .done)
  | fail {number : Nat} (h : p.workers[place]? = some (.working number))
      (hearly : tasks.stopsEarly) (hwrong : tasks.wentWrong (tasks.result number)) :
      Move tasks p place (p.setWorker place (.stopping number (tasks.result number)))
  | work {number : Nat} (h : p.workers[place]? = some (.working number)) :
      Move tasks p place (p.setWorker place (.handing number (tasks.result number)))
  | raise {number : Nat} {result : β} (h : p.workers[place]? = some (.stopping number result)) :
      Move tasks p place ({ p with stopped := true }.setWorker place (.handing number result))
  | hand {number : Nat} {result : β} (h : p.workers[place]? = some (.handing number result)) :
      Move tasks p place
        ({ p with results := (number, result) :: p.results }.setWorker place .ready)

/-- Each step is one of the moves of its worker. -/
theorem move_step (tasks : Tasks β) (p : Pool β) (place : Nat) :
    Move tasks p place (step tasks p place) := by
  unfold step
  split
  · rename_i hnone
    exact .rest (by rw [isDone, hnone])
  · rename_i hdone
    exact .rest (by rw [isDone, hdone])
  · rename_i hready
    cases hstopped : p.stopped with
    | true => exact .quit hready hstopped
    | false => exact .look hready hstopped
  · rename_i htaking
    split
    · exact .take htaking ‹_›
    · exact .leave htaking (by omega)
  · rename_i number hworking
    simp only [Bool.and_eq_true]
    split
    · rename_i hstop
      exact .fail hworking hstop.1 hstop.2
    · exact .work hworking
  · exact .raise ‹_›
  · exact .hand ‹_›

/-- What a list gives with one element replaced, apart from what that element gives. -/
theorem perm_filterMap_set {α γ : Type} {f : α → Option γ} {l : List α} {i : Nat} {a : α}
    (h : l[i]? = some a) (b : α) :
    ((f a).toList ++ (l.set i b).filterMap f).Perm ((f b).toList ++ l.filterMap f) := by
  rcases List.getElem?_eq_some_iff.1 h with ⟨hlt, rfl⟩
  have hcons : ∀ c, (c :: l.eraseIdx i).filterMap f =
      (f c).toList ++ (l.eraseIdx i).filterMap f := by
    intro c
    rw [List.filterMap_cons]
    cases f c <;> rfl
  have hset := (List.set_perm_cons_eraseIdx hlt b).filterMap f
  have hl := (List.getElem_cons_eraseIdx_perm hlt).filterMap f
  rw [hcons] at hset hl
  exact ((hset.append_left _).trans (List.perm_append_comm_assoc _ _ _)).trans (hl.append_left _)

/-- A worker that holds what it held before leaves all entries as they are. -/
theorem perm_entries_of_held_eq (h : p.workers[place]? = some w)
    (hset : p'.workers = p.workers.set place w') (hheld : w'.held? tasks = w.held? tasks)
    (hresults : p'.results = p.results) : (p'.entries tasks).Perm (p.entries tasks) := by
  have hperm := perm_filterMap_set (f := (·.held? tasks)) h w'
  rw [← hset, hheld] at hperm
  rw [entries, entries, hresults]
  exact ((List.perm_append_left_iff _).1 hperm).append_right _

/-- A move leaves all entries as they are, or takes the next task. -/
theorem Move.entries (h : Move tasks p place p') :
    (p'.entries tasks).Perm (p.entries tasks) ∧ p'.taken tasks = p.taken tasks ∨
      (p'.entries tasks).Perm ((p.next, tasks.result p.next) :: p.entries tasks) ∧
        p.taken tasks = p.next ∧ p'.taken tasks = p.next + 1 := by
  cases h with
  | rest => exact .inl ⟨.refl _, rfl⟩
  | quit h _ | look h _ | fail h _ _ | work h | raise h =>
    exact .inl ⟨perm_entries_of_held_eq h rfl rfl rfl, rfl⟩
  | take h hlt =>
    have hperm := perm_filterMap_set (f := (·.held? tasks)) h (.working p.next)
    refine .inr ⟨hperm.append_right _, ?_, ?_⟩
    · exact Nat.min_eq_left (Nat.le_of_lt hlt)
    · exact Nat.min_eq_left hlt
  | leave h hle =>
    refine .inl ⟨perm_entries_of_held_eq h rfl rfl rfl, ?_⟩
    change min (p.next + 1) tasks.count = min p.next tasks.count
    omega
  | hand h =>
    have hperm := perm_filterMap_set (f := (·.held? tasks)) h .ready
    exact .inl ⟨List.perm_middle.trans (hperm.append_right _), rfl⟩

theorem mem_setWorker (h : w ∈ (p.setWorker place w').workers) : w ∈ p.workers ∨ w = w' :=
  List.mem_or_eq_of_mem_set h

/-- A result that a worker holds or has handed in is never lost. -/
theorem Move.mem_entries (h : Move tasks p place p') (hentry : entry ∈ p.entries tasks) :
    entry ∈ p'.entries tasks := by
  rcases h.entries with ⟨hperm, -⟩ | ⟨hperm, -⟩
  · exact hperm.mem_iff.2 hentry
  · exact hperm.mem_iff.2 (List.mem_cons_of_mem _ hentry)

/-- A worker is about to raise the flag only where it was before, or where its task just went
wrong. -/
theorem Move.stopping {number : Nat} {result : β} (h : Move tasks p place p')
    (hmem : .stopping number result ∈ p'.workers) :
    .stopping number result ∈ p.workers ∨ tasks.stopsEarly ∧ tasks.wentWrong result := by
  cases h with
  | rest => exact .inl hmem
  | quit | look | take | leave | work | raise | hand =>
    rcases mem_setWorker hmem with hmem | heq
    · exact .inl hmem
    · cases heq
  | fail _ hearly hwrong =>
    rcases mem_setWorker hmem with hmem | heq
    · exact .inl hmem
    · cases heq
      exact .inr ⟨hearly, hwrong⟩

/-- The flag is raised by a worker that was about to. -/
theorem Move.stopped (h : Move tasks p place p') (hstopped : p'.stopped) :
    p.stopped ∨ ∃ number result, .stopping number result ∈ p.workers := by
  cases h with
  | rest | quit | look | take | leave | fail | work | hand => exact .inl hstopped
  | raise h => exact .inr ⟨_, _, List.mem_of_getElem? h⟩

/-- A worker comes to its end only at a flag or where no task is left. -/
theorem Move.done (h : Move tasks p place p') (hdone : .done ∈ p'.workers) :
    .done ∈ p.workers ∨ p'.stopped ∨ tasks.count ≤ p'.next := by
  cases h with
  | rest => exact .inl hdone
  | look | take | fail | work | raise | hand =>
    rcases mem_setWorker hdone with hdone | heq
    · exact .inl hdone
    · cases heq
  | quit _ hstopped => exact .inr (.inl hstopped)
  | leave _ hle => exact .inr (.inr (Nat.le_succ_of_le hle))

/-- Workers that were told to stop are not told otherwise. -/
theorem Move.stopped_mono (h : Move tasks p place p') (hstopped : p.stopped) : p'.stopped := by
  cases h with
  | raise => rfl
  | rest | quit | look | take | leave | fail | work | hand => exact hstopped

/-- The number to be taken next never goes down. -/
theorem Move.next_mono (h : Move tasks p place p') : p.next ≤ p'.next := by
  cases h with
  | take | leave => exact Nat.le_succ _
  | rest | quit | look | fail | work | raise | hand => exact Nat.le_refl _

theorem Move.length_workers (h : Move tasks p place p') : p'.workers.length = p.workers.length := by
  cases h with
  | rest => rfl
  | quit | look | take | leave | fail | work | raise | hand => exact List.length_set

/-- A worker that is about to raise the flag holds a result. -/
theorem mem_entries_of_stopping {number : Nat} {result : β}
    (h : .stopping number result ∈ p.workers) : (number, result) ∈ p.entries tasks :=
  List.mem_append_left _ (List.mem_filterMap.2 ⟨_, h, rfl⟩)

/-! ## Any steps -/

/-- Workers before their first step are sound. -/
theorem sound_start (tasks : Tasks β) (workers : Nat) : Sound tasks (start workers) where
  entries := by
    have hnone : (List.replicate workers Worker.ready).filterMap (·.held? tasks) = [] := by
      simp [Worker.held?]
    have htaken : taken tasks (start workers) = 0 := Nat.zero_min _
    rw [Pool.entries, htaken]
    change (List.filterMap _ (List.replicate workers Worker.ready) ++ []).Perm []
    rw [hnone]
    rfl
  stopping _ _ h := by cases List.eq_of_mem_replicate h
  stopped h := by cases h
  done h := by cases List.eq_of_mem_replicate h

/-- One step preserves that workers are sound. -/
theorem sound_step (h : Sound tasks p) (place : Nat) : Sound tasks (step tasks p place) where
  entries := by
    rcases (move_step tasks p place).entries with ⟨hperm, htaken⟩ | ⟨hperm, htaken, htaken'⟩
    · rw [htaken]
      exact hperm.trans h.entries
    · have hentries := h.entries
      rw [htaken] at hentries
      rw [htaken', Tasks.upTo_succ]
      exact (hperm.trans (hentries.cons _)).trans (List.perm_append_singleton _ _).symm
  stopping number result hmem := by
    rcases (move_step tasks p place).stopping hmem with hmem | hwrong
    · exact h.stopping number result hmem
    · exact hwrong
  stopped hstopped := by
    have hmove := move_step tasks p place
    rcases hmove.stopped hstopped with hstopped | ⟨number, result, hmem⟩
    · rcases h.stopped hstopped with ⟨hearly, entry, hentry, hwrong⟩
      exact ⟨hearly, entry, hmove.mem_entries hentry, hwrong⟩
    · rcases h.stopping number result hmem with ⟨hearly, hwrong⟩
      exact ⟨hearly, _, hmove.mem_entries (mem_entries_of_stopping hmem), hwrong⟩
  done hdone := by
    have hmove := move_step tasks p place
    rcases hmove.done hdone with hdone | hend
    · rcases h.done hdone with hstopped | hle
      · exact .inl (hmove.stopped_mono hstopped)
      · exact .inr (Nat.le_trans hle hmove.next_mono)
    · exact hend

theorem follow_cons (tasks : Tasks β) (p : Pool β) (place : Nat) (order : List Nat) :
    p.follow tasks (place :: order) = (step tasks p place).follow tasks order := rfl

theorem follow_append (tasks : Tasks β) (p : Pool β) (order order' : List Nat) :
    p.follow tasks (order ++ order') = (p.follow tasks order).follow tasks order' :=
  List.foldl_append

/-- Any steps preserve that workers are sound. -/
theorem sound_follow (h : Sound tasks p) (order : List Nat) :
    Sound tasks (p.follow tasks order) := by
  induction order generalizing p with
  | nil => exact h
  | cons place order ih =>
    rw [follow_cons]
    exact ih (sound_step h place)

/-- The number of workers never changes. -/
theorem length_workers_follow (tasks : Tasks β) (p : Pool β) (order : List Nat) :
    (p.follow tasks order).workers.length = p.workers.length := by
  induction order generalizing p with
  | nil => rfl
  | cons place order ih => rw [follow_cons, ih, (move_step tasks p place).length_workers]

/-! ## Workers at their end -/

/-- Workers that have come to their end hold nothing, so that all that was taken is handed in. -/
theorem perm_results_of_finished (h : Sound tasks p) (hfinished : p.Finished) :
    p.results.Perm (tasks.upTo (p.taken tasks)) := by
  have hheld : p.workers.filterMap (·.held? tasks) = [] := by
    rw [List.filterMap_eq_nil_iff]
    intro w hw
    rw [hfinished w hw]
    rfl
  have hentries := h.entries
  rw [entries, hheld] at hentries
  exact hentries

/-- Workers that have come to their end have handed in the first tasks with their results. -/
theorem inOrder_of_finished (h : Sound tasks p) (hfinished : p.Finished) :
    p.inOrder = tasks.upTo (p.taken tasks) := by
  have hresults := perm_results_of_finished h hfinished
  have hsorted : (tasks.upTo (p.taken tasks)).Pairwise fun a b => decide (a.1 ≤ b.1) = true := by
    rw [Tasks.upTo, List.pairwise_map]
    exact List.pairwise_lt_range.imp fun hlt => decide_eq_true (Nat.le_of_lt hlt)
  have hinOrder : p.inOrder.Pairwise fun a b => decide (a.1 ≤ b.1) = true := by
    refine List.pairwise_mergeSort ?_ ?_ _
    · intro a b c hab hbc
      exact decide_eq_true (Nat.le_trans (of_decide_eq_true hab) (of_decide_eq_true hbc))
    · intro a b
      simpa using Nat.le_total a.1 b.1
  refine List.Perm.eq_of_pairwise ?_ hinOrder hsorted ((List.mergeSort_perm _ _).trans hresults)
  -- Two entries of one number are the same, as both hold the result of the task.
  intro a b ha hb hab hba
  have ha' := hresults.mem_iff.1 ((List.mergeSort_perm _ _).mem_iff.1 ha)
  rcases List.mem_map.1 ha' with ⟨m, -, rfl⟩
  rcases List.mem_map.1 hb with ⟨n, -, rfl⟩
  have hmn : m = n := Nat.le_antisymm (of_decide_eq_true hab) (of_decide_eq_true hba)
  rw [hmn]

/-- Workers that have come to their end have taken all tasks, or one of those taken went wrong. -/
theorem taken_of_finished (h : Sound tasks p) (hfinished : p.Finished) (hworkers : p.workers ≠ []) :
    p.taken tasks = tasks.count ∨ tasks.stopsEarly ∧
      ∃ number < p.taken tasks, tasks.wentWrong (tasks.result number) := by
  rcases List.exists_mem_of_ne_nil _ hworkers with ⟨w, hw⟩
  have hdone : .done ∈ p.workers := by
    have hw' := hfinished w hw
    rwa [hw'] at hw
  rcases h.done hdone with hstopped | hle
  · rcases h.stopped hstopped with ⟨hearly, entry, hentry, hwrong⟩
    rcases List.mem_map.1 (h.entries.mem_iff.1 hentry) with ⟨number, hnumber, rfl⟩
    exact .inr ⟨hearly, number, List.mem_range.1 hnumber, hwrong⟩
  · exact .inl (Nat.min_eq_right hle)

/-! ## The flag -/

theorem countP_isTaking_set {workers : List (Worker β)} (h : workers[place]? = some w)
    (w' : Worker β) : (workers.set place w').countP (·.isTaking) + w.isTaking.toNat =
      workers.countP (·.isTaking) + w'.isTaking.toNat := by
  rcases List.getElem?_eq_some_iff.1 h with ⟨hlt, rfl⟩
  have hle := List.boole_getElem_le_countP (p := fun w : Worker β => w.isTaking) hlt
  have hone : ∀ b : Bool, (if b = true then 1 else 0) = b.toNat := fun b => by cases b <;> rfl
  rw [List.countP_set hlt]
  simp only [hone] at hle ⊢
  omega

/-- Once the flag is raised, only workers that have already looked at it take a number. -/
theorem Move.next_add_takers_le (h : Move tasks p place p') (hstopped : p.stopped) :
    p'.next + p'.takers ≤ p.next + p.takers := by
  cases h with
  | rest => exact Nat.le_refl _
  | look _ hgo =>
    rw [hgo] at hstopped
    cases hstopped
  | quit h _ | fail h _ _ | work h | raise h | hand h =>
    exact Nat.add_le_add_left (Nat.le_of_eq (countP_isTaking_set h _)) _
  | take h _ | leave h _ =>
    simp only [takers, setWorker, Nat.add_right_comm p.next 1]
    exact Nat.add_le_add_left (Nat.le_of_eq (countP_isTaking_set h _)) _

/-- Once they are told to stop, workers take the numbers only that they were about to. -/
theorem next_add_takers_follow_le (tasks : Tasks β) (order : List Nat) (hstopped : p.stopped) :
    (p.follow tasks order).next + (p.follow tasks order).takers ≤ p.next + p.takers := by
  induction order generalizing p with
  | nil => exact Nat.le_refl _
  | cons place order ih =>
    have hmove := move_step tasks p place
    rw [follow_cons]
    exact Nat.le_trans (ih (hmove.stopped_mono hstopped)) (hmove.next_add_takers_le hstopped)

/-- The worker that raises the flag does not go on to take a number. -/
theorem Move.takers_lt (h : Move tasks p place p') (hgo : p.stopped = false)
    (hstopped : p'.stopped) : p'.takers < p'.workers.length := by
  cases h with
  | rest | quit | look | take | leave | fail | work | hand =>
    rw [show p.stopped = true from hstopped] at hgo
    cases hgo
  | raise h =>
    refine Nat.lt_of_le_of_ne List.countP_le_length fun hall => ?_
    rcases List.getElem?_eq_some_iff.1 h with ⟨hlt, -⟩
    have htaking := List.countP_eq_length.1 hall _ (List.mem_set hlt _)
    cases htaking

/-- Once a step has raised the flag, each worker but the one that raised it takes at most one more
task. -/
theorem taken_follow_le (tasks : Tasks β) (p : Pool β) (place : Nat) (order : List Nat)
    (hgo : p.stopped = false) (hraised : (step tasks p place).stopped) :
    ((step tasks p place).follow tasks order).taken tasks ≤
      (step tasks p place).taken tasks + (p.workers.length - 1) := by
  have hmove := move_step tasks p place
  have hlt := hmove.takers_lt hgo hraised
  have hle := next_add_takers_follow_le tasks order hraised
  rw [hmove.length_workers] at hlt
  simp only [taken]
  omega

/-! ## One worker after the other -/

/-- A bound on the number of steps that the worker at a place still goes. -/
def todo (tasks : Tasks β) (p : Pool β) (place : Nat) : Nat :=
  match p.workers[place]? with
  | none | some .done => 0
  | some .ready => 5 * (tasks.count - p.next) + 2
  | some .taking => 5 * (tasks.count - p.next) + 1
  | some (.working _) => 5 * (tasks.count - p.next) + 5
  | some (.stopping _ _) => 5 * (tasks.count - p.next) + 4
  | some (.handing _ _) => 5 * (tasks.count - p.next) + 3

/-- A step of a worker that is not at its end leaves less to do. -/
theorem Move.todo_lt (h : Move tasks p place p') (hbusy : p.isDone place = false) :
    p'.todo tasks place < p.todo tasks place := by
  have hself : ∀ {w w'}, p.workers[place]? = some w →
      (p.workers.set place w')[place]? = some w' := by
    intro w w' h
    rcases List.getElem?_eq_some_iff.1 h with ⟨hlt, -⟩
    exact List.getElem?_set_self hlt
  cases h with
  | rest hdone =>
    rw [hdone] at hbusy
    cases hbusy
  | quit h _ | look h _ | fail h _ _ | work h | raise h | take h _ | leave h _ | hand h =>
    simp only [todo, setWorker, hself h, h]
    omega

/-- Driving a worker is taking steps with it, and it comes to its end if there are enough of
them. -/
theorem exists_order_drive (tasks : Tasks β) (place n : Nat) (p : Pool β)
    (h : p.todo tasks place ≤ n) :
    ∃ m, drive tasks place n p = p.follow tasks (List.replicate m place) ∧
      (drive tasks place n p).isDone place := by
  induction n generalizing p with
  | zero =>
    cases hbusy : p.isDone place with
    | true => exact ⟨0, rfl, hbusy⟩
    | false =>
      have hlt := (move_step tasks p place).todo_lt hbusy
      omega
  | succ n ih =>
    cases hbusy : p.isDone place with
    | true =>
      rw [drive, if_pos hbusy]
      exact ⟨0, rfl, hbusy⟩
    | false =>
      have hlt := (move_step tasks p place).todo_lt hbusy
      rcases ih (step tasks p place) (by omega) with ⟨m, horder, hdone⟩
      rw [drive, if_neg (by simp [hbusy])]
      exact ⟨m + 1, by rw [horder, List.replicate_succ, follow_cons], hdone⟩

/-- A move leaves the other workers as they are. -/
theorem Move.getElem?_of_ne {place' : Nat} (h : Move tasks p place p') (hne : place ≠ place') :
    p'.workers[place']? = p.workers[place']? := by
  cases h with
  | rest => rfl
  | quit | look | take | leave | fail | work | raise | hand => exact List.getElem?_set_ne hne

theorem getElem?_follow_replicate {place' : Nat} (tasks : Tasks β) (p : Pool β) (m : Nat)
    (hne : place ≠ place') :
    (p.follow tasks (List.replicate m place)).workers[place']? = p.workers[place']? := by
  induction m generalizing p with
  | zero => rfl
  | succ m ih =>
    rw [List.replicate_succ, follow_cons, ih, (move_step tasks p place).getElem?_of_ne hne]

/-- Some workers work one after the other: then they are at their end, and the others have not
begun. -/
theorem exists_order_turns (tasks : Tasks β) (workers k : Nat) (hk : k ≤ workers) :
    ∃ order, (List.range k).foldl (fun p place => drive tasks place (5 * tasks.count + 3) p)
        (start workers) = (start workers).follow tasks order ∧
      (∀ place < k, ((start workers).follow tasks order).isDone place) ∧
      ∀ place, k ≤ place → ((start workers).follow tasks order).workers[place]? =
        (start workers : Pool β).workers[place]? := by
  induction k with
  | zero => exact ⟨[], rfl, by simp, fun _ _ => rfl⟩
  | succ k ih =>
    rcases ih (by omega) with ⟨order, hfold, hdone, hready⟩
    have hstart : ((start workers).follow tasks order).workers[k]? = some Worker.ready := by
      rw [hready k (Nat.le_refl _)]
      exact List.getElem?_replicate_of_lt hk
    have htodo : ((start workers).follow tasks order).todo tasks k ≤ 5 * tasks.count + 3 := by
      rw [todo, hstart]
      dsimp only
      omega
    rcases exists_order_drive tasks k _ _ htodo with ⟨m, horder, hend⟩
    rw [horder] at hend
    have hother := fun place (hne : k ≠ place) =>
      getElem?_follow_replicate tasks ((start workers).follow tasks order) m hne
    refine ⟨order ++ List.replicate m k, ?_, ?_, ?_⟩
    · rw [List.range_succ, List.foldl_append, hfold, follow_append]
      exact horder
    · intro place hplace
      rw [follow_append]
      rcases Nat.lt_succ_iff_lt_or_eq.1 hplace with hlt | rfl
      · rw [isDone, hother place (by omega)]
        exact hdone place hlt
      · exact hend
    · intro place hplace
      rw [follow_append, hother place (by omega), hready place (by omega)]

/-- A worker whose place says that it has come to its end has come to it. -/
theorem eq_done_of_isDone (h : p.workers[place]? = some w) (hdone : p.isDone place) :
    w = .done := by
  rw [isDone, h] at hdone
  cases w with
  | done => rfl
  | ready | taking | working | stopping | handing => cases hdone

/-- Workers that work one after the other come to their end, in an order of their own. -/
theorem exists_order_ofTasks (tasks : Tasks β) (workers : Nat) :
    ∃ order, ofTasks tasks workers = (start workers).follow tasks order ∧
      (ofTasks tasks workers).Finished := by
  rcases exists_order_turns tasks workers workers (Nat.le_refl _) with ⟨order, hfold, hdone, -⟩
  refine ⟨order, hfold, ?_⟩
  intro w hw
  rcases List.getElem?_of_mem hw with ⟨place, hplace⟩
  rw [ofTasks, hfold] at hplace
  have hlength : ((start workers).follow tasks order).workers.length = workers := by
    rw [length_workers_follow, start, List.length_replicate]
  have hlt : place < workers := by
    rw [← hlength]
    exact (List.getElem?_eq_some_iff.1 hplace).1
  exact eq_done_of_isDone hplace (hdone place hlt)

end Pool

end Strata
