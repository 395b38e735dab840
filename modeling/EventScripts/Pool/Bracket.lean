import EventScripts.Loader.Occurrence
import EventScripts.Loader.Scope
/-!
# Work between the opening and the closing of a scope

A task opens its scope, does its work and closes the scope, in three steps that
the steps of other tasks may come between. A scope that does not open ends the
task at once; one that has opened is closed whatever became of the work. A
fault of the closing counts unless the work has failed before it; a panic counts
before everything else, the earliest one first when the work itself panicked.

This is the bracket of `submit(openScope, work)` in `SPEC_FULL.md` §4.3.
-/

namespace EventScripts

/-- What a piece of work lets be seen, and its result. -/
structure Work (α : Type) where
  occurrences : List Occurrence := []
  result : Except Fault α

/-- How far a task has come. -/
inductive Progress (α : Type) where
  | waiting
  | opened
  | worked (result : Except Fault α)
  | done (result : Except WorkFault α)

/-- A piece of work and how far it has come. -/
structure Task (α : Type) where
  work : Work α
  progress : Progress α := .waiting

namespace Task

variable {α : Type}

/-- What a task comes to, given the results of its work and of the closing of its scope. -/
def settle : Except Fault α → Except Fault Unit → Except Fault α
  | .ok value, .ok () => .ok value
  | .ok _, .error fault => .error fault
  | .error (.failure _), .error (.panic text) => .error (.panic text)
  | .error fault, _ => .error fault

/-- What is seen of a closing: its fault is logged if the work has panicked. -/
def closing : Except Fault α → Except Fault Unit → List Occurrence
  | .error (.panic _), .error fault => [.scopeClosed, .closeFailed fault]
  | _, _ => [.scopeClosed]

/-- Ends a task; a fault is reported. -/
def finish (census : Census) : Except Fault α → Progress α × List Occurrence
  | .ok value => (.done (.ok value), [])
  | .error fault => (.done (.error (.work fault)), [.reported (.workFailed (.work fault)) census])

/-- Takes a task one step further. -/
def step (scope : Scope) (census : Census) (task : Task α) (use : ScopeUse) :
    Task α × ScopeUse × List Occurrence :=
  match task.progress with
  | .waiting =>
    match scope.openOnce use with
    | (use, .ok ()) => ({ task with progress := .opened }, use, [.scopeOpened])
    | (use, .error fault) =>
      let (progress, seen) := finish census (.error fault)
      ({ task with progress }, use, .scopeOpened :: seen)
  | .opened =>
    ({ task with progress := .worked task.work.result }, use, task.work.occurrences)
  | .worked result =>
    let (use, closed) := scope.closeOnce use
    let (progress, seen) := finish census (settle result closed)
    ({ task with progress }, use, closing result closed ++ seen)
  | .done _ => (task, use, [])

/-- The result of a task; a task that has not come to its end counts as abandoned. -/
def result (task : Task α) : Except WorkFault α :=
  match task.progress with
  | .done result => result
  | _ => .error .abandoned

/-- How many steps a task has. -/
def stepCount : Nat := 3

/-- Takes the task at a place in a list one step further. -/
def stepAt (scope : Scope) (census : Census) :
    Nat → List (Task α) → ScopeUse → List (Task α) × ScopeUse × List Occurrence
  | _, [], use => ([], use, [])
  | 0, task :: rest, use =>
    let (task, use, seen) := task.step scope census use
    (task :: rest, use, seen)
  | place + 1, task :: rest, use =>
    let (rest, use, seen) := stepAt scope census place rest use
    (task :: rest, use, seen)

/-- Takes tasks further in the order of a schedule, which names the place of the task for each
step. -/
def follow (scope : Scope) (census : Census) :
    List Nat → List (Task α) → ScopeUse → List (Task α) × ScopeUse × List Occurrence
  | [], tasks, use => (tasks, use, [])
  | place :: schedule, tasks, use =>
    let (tasks, use, seen) := stepAt scope census place tasks use
    let (tasks, use, more) := follow scope census schedule tasks use
    (tasks, use, seen ++ more)

/-- The schedule that does a number of tasks one after the other. -/
def inTurn (count : Nat) : List Nat :=
  (List.range count).flatMap fun place => List.replicate stepCount place

/-- Does tasks to the end: first in the order of a schedule, then what is left in turn. -/
def runAll (scope : Scope) (census : Census) (schedule : List Nat) (works : List (Work α))
    (use : ScopeUse) : List (Except WorkFault α) × ScopeUse × List Occurrence :=
  let tasks := works.map fun work => ({ work } : Task α)
  let (tasks, use, seen) := follow scope census (schedule ++ inTurn works.length) tasks use
  (tasks.map result, use, seen)

end Task

end EventScripts
