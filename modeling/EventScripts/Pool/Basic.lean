/-!
# The worker pool

A pool hands tasks to workers through a queue. Without workers a task runs on
the caller as soon as it is submitted. Shrinking a pool asks the last workers to
stop once they are done with what they have; shrinking it to nothing also runs
everything in the queue on the caller, so that nothing submitted is lost.

The operations of the caller are functions; what the workers do is the relation
`Step`, one step of one worker at a time. `settle` is one way for them to get
on with everything that is not held up.

| here | `SPEC_FULL.md` §4.3, `WorkerPool` |
| --- | --- |
| `submit` | `submit(openScope, work)`; what the task does is in `EventScripts.Pool.Bracket` |
| `resize` | `setSize(n)`: `grow`, `shrink`, and `drain` when nobody is left |
| `Step` | a worker that polls the queue; a timeout may pass at any time, so it is no step |
| `close` | the end of the pool |
-/

namespace EventScripts

/-- Where a task runs. -/
inductive Site where
  | caller
  | worker (id : Nat)
deriving DecidableEq, Repr

/-- A worker and the task that it is at. -/
structure Worker (τ : Type) where
  id : Nat
  task : Option τ := none
deriving Repr

/-- A pool. The retired workers have been asked to stop; `started` and `finished` hold all tasks
that ever were, in order. -/
structure Pool (τ : Type) where
  queue : List τ := []
  workers : List (Worker τ) := []
  retired : List (Worker τ) := []
  nextWorker : Nat := 0
  started : List (τ × Site) := []
  finished : List τ := []
deriving Repr

namespace Pool

variable {τ : Type}

/-- The number of live workers. -/
def size (pool : Pool τ) : Nat := pool.workers.length

/-- Whether tasks run elsewhere than on the caller. -/
def isAsync (pool : Pool τ) : Bool := !pool.workers.isEmpty

/-- Runs tasks on the caller, one after the other. -/
def runHere (pool : Pool τ) (tasks : List τ) : Pool τ :=
  { pool with
    started := pool.started ++ tasks.map (·, .caller)
    finished := pool.finished ++ tasks }

/-- Hands a task to the workers, or runs it if there are none. -/
def submit (pool : Pool τ) (task : τ) : Pool τ :=
  if pool.isAsync then { pool with queue := pool.queue ++ [task] } else pool.runHere [task]

/-- Starts workers until there are `size`. -/
def grow (pool : Pool τ) (size : Nat) : Pool τ :=
  let missing := size - pool.size
  { pool with
    workers := pool.workers ++ (List.range missing).map fun i => { id := pool.nextWorker + i }
    nextWorker := pool.nextWorker + missing }

/-- Asks the workers behind the first `size` to stop. -/
def shrink (pool : Pool τ) (size : Nat) : Pool τ :=
  { pool with
    workers := pool.workers.take size
    retired := pool.retired ++ pool.workers.drop size }

/-- Runs everything in the queue on the caller. -/
def drain (pool : Pool τ) : Pool τ := { pool.runHere pool.queue with queue := [] }

/-- Changes the number of workers. -/
def resize (pool : Pool τ) (size : Nat) : Pool τ :=
  if size < pool.size then
    let pool := pool.shrink size
    if size = 0 then pool.drain else pool
  else pool.grow size

/-- A pool with a number of workers. -/
def ofSize (size : Nat) : Pool τ := ({} : Pool τ).resize size

/-- The worker that has nothing to do takes a task; others are left as they are. -/
def Worker.give (id : Nat) (task : Option τ) (worker : Worker τ) : Worker τ :=
  if worker.id = id then { worker with task } else worker

/-- One step of one worker. A retired worker may still take a task that it was waiting for. -/
inductive Step : Pool τ → Pool τ → Prop where
  /-- An idle worker takes the first task in the queue. -/
  | take {pool : Pool τ} {task : τ} {rest : List τ} {worker : Worker τ}
      (hq : pool.queue = task :: rest) (hw : worker ∈ pool.workers ++ pool.retired)
      (hi : worker.task = none) :
      Step pool { pool with
        queue := rest
        workers := pool.workers.map (Worker.give worker.id (some task))
        retired := pool.retired.map (Worker.give worker.id (some task))
        started := pool.started ++ [(task, .worker worker.id)] }
  /-- A worker finishes its task. -/
  | finish {pool : Pool τ} {task : τ} {worker : Worker τ}
      (hw : worker ∈ pool.workers ++ pool.retired) (ht : worker.task = some task) :
      Step pool { pool with
        workers := pool.workers.map (Worker.give worker.id none)
        retired := pool.retired.map (Worker.give worker.id none)
        finished := pool.finished ++ [task] }
  /-- A retired worker that is idle leaves. -/
  | leave {pool : Pool τ} {front back : List (Worker τ)} {worker : Worker τ}
      (hr : pool.retired = front ++ worker :: back) (hi : worker.task = none) :
      Step pool { pool with retired := front ++ back }

/-! ## Getting on with what is not held up -/

/-- A worker finishes its task unless that is held up; the second result is the task finished. -/
def Worker.proceed (held : τ → Bool) (worker : Worker τ) : Worker τ × Option τ :=
  match worker.task with
  | some task => if held task then (worker, none) else ({ worker with task := none }, some task)
  | none => (worker, none)

/-- Every worker that is not held up finishes its task; idle retired ones leave. -/
def finishAll (held : τ → Bool) (pool : Pool τ) : Pool τ :=
  let workers := pool.workers.map (Worker.proceed held)
  let retired := pool.retired.map (Worker.proceed held)
  { pool with
    workers := workers.map (·.1)
    retired := (retired.map (·.1)).filter (·.task.isSome)
    finished := pool.finished ++ (workers ++ retired).filterMap (·.2) }

/-- Gives the tasks of a queue to idle workers in turn; the results are the workers, the tasks
left over and those started. -/
def assign : List (Worker τ) → List τ → List (Worker τ) × List τ × List (τ × Site)
  | [], queue => ([], queue, [])
  | workers, [] => (workers, [], [])
  | worker :: workers, task :: queue =>
    match worker.task with
    | some _ =>
      let (workers, queue, started) := assign workers (task :: queue)
      (worker :: workers, queue, started)
    | none =>
      let (workers, queue, started) := assign workers queue
      ({ worker with task := some task } :: workers, queue, (task, .worker worker.id) :: started)

/-- Idle workers take the first tasks of the queue. -/
def takeAll (pool : Pool τ) : Pool τ :=
  let (workers, queue, started) := assign pool.workers pool.queue
  { pool with workers, queue, started := pool.started ++ started }

/-- Takes and finishes a number of times. -/
def rounds (held : τ → Bool) : Nat → Pool τ → Pool τ
  | 0, pool => pool
  | n + 1, pool => rounds held n (finishAll held pool.takeAll)

/-- Lets the workers do everything that is not held up. -/
def settle (held : τ → Bool) (pool : Pool τ) : Pool τ :=
  rounds held (pool.queue.length + 1) pool

/-- Ends a pool: the workers do all that is left, and leave. -/
def close (pool : Pool τ) : Pool τ :=
  { pool.settle (fun _ => false) with workers := [], retired := [] }

end Pool

end EventScripts
