/-!
# Pools of workers

Several workers share a list of tasks. Each of them looks at a flag, takes the number of the next
task, works on it, raises the flag if that went wrong and the batch is to stop then, and hands in
the result, over and over. A `Pool` is the shared state with what each worker does next; one step
of one worker is atomic, and the steps of the workers may come in any order.

* `Pool.step`: the next step of one worker;
* `Pool.follow`: steps in a given order;
* `Pool.ofTasks`: the pool after one worker after the other has worked until there is nothing left.
-/

namespace Strata

structure Tasks (β : Type) where
  count : Nat
  /-- The result of the task with a number. -/
  result : Nat → β
  /-- Whether a result means that the task went wrong. -/
  wentWrong : β → Bool
  /-- Whether no more tasks are taken once one has gone wrong. -/
  stopsEarly : Bool

/-- What a worker does next. -/
inductive Worker (β : Type) where
  /-- Looks at the flag. -/
  | ready
  /-- Takes a number. -/
  | taking
  /-- Works on a task. -/
  | working (number : Nat)
  /-- Raises the flag. -/
  | stopping (number : Nat) (result : β)
  /-- Hands in a result. -/
  | handing (number : Nat) (result : β)
  /-- Nothing more. -/
  | done
deriving DecidableEq, Repr

/-- The shared state of some workers. -/
structure Pool (β : Type) where
  /-- The number of the next task. -/
  next : Nat
  /-- The flag. -/
  stopped : Bool
  workers : List (Worker β)
  /-- The results handed in with the numbers of their tasks, the newest first. -/
  results : List (Nat × β)
deriving DecidableEq, Repr

namespace Pool

variable {β : Type}

/-- Workers before their first step. -/
def start (workers : Nat) : Pool β := ⟨0, false, List.replicate workers .ready, []⟩

/-- The pool with what the worker at a place does next. -/
def setWorker (p : Pool β) (place : Nat) (w : Worker β) : Pool β :=
  { p with workers := p.workers.set place w }

def step (tasks : Tasks β) (p : Pool β) (place : Nat) : Pool β :=
  match p.workers[place]? with
  | none | some .done => p
  | some .ready => p.setWorker place (if p.stopped then .done else .taking)
  | some .taking =>
    { p with next := p.next + 1 }.setWorker place
      (if p.next < tasks.count then .working p.next else .done)
  | some (.working number) =>
    let result := tasks.result number
    p.setWorker place
      (if tasks.stopsEarly && tasks.wentWrong result then .stopping number result
        else .handing number result)
  | some (.stopping number result) =>
    { p with stopped := true }.setWorker place (.handing number result)
  | some (.handing number result) =>
    { p with results := (number, result) :: p.results }.setWorker place .ready

/-- Steps of the workers at the places of a list. -/
def follow (tasks : Tasks β) (p : Pool β) (order : List Nat) : Pool β := order.foldl (step tasks) p

/-- Whether the worker at a place has nothing more to do. -/
def isDone (p : Pool β) (place : Nat) : Bool :=
  match p.workers[place]? with
  | none | some .done => true
  | _ => false

/-- At most `n` steps of the worker at a place. -/
def drive (tasks : Tasks β) (place : Nat) : Nat → Pool β → Pool β
  | 0, p => p
  | n + 1, p => if p.isDone place then p else drive tasks place n (step tasks p place)

/-- One worker after the other works until there is nothing left for it. Five steps are enough for a
task, and three for finding that there is none. -/
def ofTasks (tasks : Tasks β) (workers : Nat) : Pool β :=
  (List.range workers).foldl (fun p place => drive tasks place (5 * tasks.count + 3) p)
    (start workers)

/-- The results in the order of the tasks. -/
def inOrder (p : Pool β) : List (Nat × β) :=
  p.results.mergeSort fun (a, _) (b, _) => a ≤ b

end Pool

end Strata
