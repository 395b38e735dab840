import EventScripts.Loader.Occurrence
import EventScripts.Script.Structure
/-!
# The runtime

The runtime is what stays between operations: the registry, the router, the
number of construction workers, the identities given out so far, and the trace
of all occurrences. This module has the operations on one structure: carrying
out an action, and calling a structure in a phase with everything that goes
wrong reported.

`call` is where the activation context of `SPEC_FULL.md` §3 is set and taken back: an
action gets the path of its script and the phase, and has them only while it lasts.
-/

namespace EventScripts

structure Runtime (σ : Type) where
  router : Router
  registry : Registry σ := {}
  workers : Nat := 0
  /-- Identities below this number have been given out. -/
  issued : Nat := 1
  trace : List Occurrence := []

namespace Runtime

variable {σ : Type}

/-- Adds occurrences to the trace. -/
def record (rt : Runtime σ) (occurrences : List Occurrence) : Runtime σ :=
  { rt with trace := rt.trace ++ occurrences }

/-- Reports a problem. -/
def report (rt : Runtime σ) (problem : Problem) : Runtime σ :=
  rt.record [.reported problem rt.registry.census]

/-- Binds a trigger. -/
def bind (rt : Runtime σ) (trigger : Trigger) : Runtime σ × Except BindError Unit :=
  match rt.router.bind trigger with
  | .error e => (rt, .error e)
  | .ok (router, calls) =>
    let rt := { rt with router }
    (rt.record (calls.map Occurrence.host ++ [Occurrence.bound trigger.name trigger.id]), .ok ())

/-- Releases a trigger; the flag tells whether it was bound. -/
def release (rt : Runtime σ) (id : TriggerId) : Runtime σ × Bool :=
  let (router, calls, found) := rt.router.release id
  let rt := { rt with router }
  (rt.record (calls.map Occurrence.host ++ if found then [Occurrence.released id] else []), found)

/-- Enters a script into the registry. -/
def enter (rt : Runtime σ) (script : Script σ) : Runtime σ × Except Violation Unit :=
  match rt.registry.insert script with
  | .error v => (rt, .error v)
  | .ok registry => ({ rt with registry }.record [.entered script.path], .ok ())

/-- Carries out an action of a structure. -/
def perform (rt : Runtime σ) : Action σ → Runtime σ × Except Fault Bool × σ
  | .finish verdict self => (rt, verdict, self)
  | .bind trigger next =>
    let (rt, answer) := rt.bind trigger
    rt.perform (next answer)
  | .release id next =>
    let (rt, answer) := rt.release id
    rt.perform (next answer)
  | .enroll script next =>
    let (rt, answer) := rt.enter script
    rt.perform (next answer)
  | .look next => rt.perform (next rt.router)
  | .remark remark next => (rt.record [.remarked remark]).perform next

variable [Structure σ]

/-- Calls a structure in a phase. Its second result tells whether it stays: it does unless it
faults or, in activation, turns itself away; both are reported. -/
def call (rt : Runtime σ) (phase : Phase) (script : Path) (self : σ) : Runtime σ × Bool × σ :=
  let owner := Structure.name self
  let rt := rt.record [.called phase script owner rt.registry.census]
  let (rt, verdict, self) := rt.perform (Structure.act phase script self)
  match verdict with
  | .ok stays =>
    if stays || !phase.isActivation then (rt, true, self)
    else (rt.report (.phaseFailed phase script owner none), false, self)
  | .error fault => (rt.report (.phaseFailed phase script owner (some fault)), false, self)

/-- Calls structures in a phase one after another, whatever comes of it. -/
def callAll (rt : Runtime σ) (phase : Phase) (script : Path) : List σ → Runtime σ × List σ
  | [] => (rt, [])
  | self :: rest =>
    let (rt, _, self) := rt.call phase script self
    let (rt, rest) := rt.callAll phase script rest
    (rt, self :: rest)

/-- Delivers an event at one tier; the number is that of the triggers run. -/
def dispatch (rt : Runtime σ) (event : Event) (tier : Tier) : Runtime σ × Nat :=
  let executions := rt.router.dispatch event tier
  (rt.record (executions.flatMap (Execution.occurrences rt.registry.census)), executions.length)

/-- Delivers an event at every tier in turn. -/
def fire (rt : Runtime σ) (event : Event) : Runtime σ × Nat :=
  let executions := rt.router.fire event
  (rt.record (executions.flatMap (Execution.occurrences rt.registry.census)), executions.length)

/-- Marks a script as disabled. -/
def markDisabled (rt : Runtime σ) (path : Path) : Runtime σ × Bool :=
  match rt.registry.markDisabled path with
  | (_, .ignored) => (rt.record [.markerIgnored path.disabled], false)
  | (_, .present) => (rt, false)
  | (registry, .added) => ({ rt with registry }, true)

end Runtime

end EventScripts
