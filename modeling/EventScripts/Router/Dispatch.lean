import EventScripts.Router.Basic
import EventScripts.Script.Problem
/-!
# Dispatch

An event delivered at a tier runs the triggers bound to its handler list at
that tier, in order, provided that one of their kinds is the event's kind or an
ancestor of it and that they accept the event. A blocked event runs nothing
unless its own kind listens to blocked events. A trigger that faults does not
keep the others from running.

The `EventDispatchRouter` of `SPEC_FULL.md` §4.5, and `fire` of §10.6.
-/

namespace EventScripts

/-- One run of a trigger. -/
structure Execution where
  trigger : Trigger
  remarks : List Remark
  result : Except Fault Unit

namespace Router

/-- Whether an event gets past the filter for blocked events. -/
def admits (router : Router) (event : Event) : Bool :=
  !event.blocked || router.catalog.listensBlocked event.kind

/-- Whether a trigger that shares the event's channel runs for it. -/
def matchesEvent (router : Router) (event : Event) (trigger : Trigger) : Bool :=
  trigger.kinds.any (router.catalog.isA event.kind ·) && trigger.accepts event

/-- The triggers that run for an event at a tier, in order. -/
def targets (router : Router) (event : Event) (tier : Tier) : List Trigger :=
  match router.catalog.list? event.kind with
  | none => []
  | some list =>
    if router.admits event then (router.bound ⟨list, tier⟩).filter (router.matchesEvent event)
    else []

/-- Runs a trigger for an event. -/
def run (event : Event) (trigger : Trigger) : Execution :=
  let (remarks, result) := trigger.execute event
  { trigger, remarks, result }

/-- Delivers an event at one tier. -/
def dispatch (router : Router) (event : Event) (tier : Tier) : List Execution :=
  (router.targets event tier).map (run event)

/-- Delivers an event at every tier in turn. -/
def fire (router : Router) (event : Event) : List Execution :=
  Tier.all.flatMap (router.dispatch event)

end Router

namespace Execution

/-- The problem to report for a run that faulted. -/
def problem? (execution : Execution) : Option Problem :=
  match execution.result with
  | .ok () => none
  | .error fault =>
    some (.phaseFailed .execute execution.trigger.script execution.trigger.name (some fault))

end Execution

end EventScripts
