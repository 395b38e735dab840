import EventScripts.Event.Basic
import EventScripts.Event.Tier
import EventScripts.Fault
import EventScripts.Log.Record
import EventScripts.Path.Basic
/-!
# Triggers

A trigger is a chain of statements that runs when an event of one of its kinds
is delivered at its tier. A statement sees the event; it may leave remarks, and
it says whether the chain goes on.

The `Trigger` of `SPEC_FULL.md` §3.
-/

namespace EventScripts

/-- What a statement or a callback says while it runs: a log record, or a line for whoever
watches it. -/
inductive Remark where
  | logged (record : Log.Record)
  | said (line : String)
deriving DecidableEq, Repr

/-- What running a statement gives: remarks, and whether the chain goes on. -/
structure Ran where
  remarks : List Remark := []
  result : Except Fault Bool := .ok true

abbrev Statement := Event → Ran

/-- What tells a trigger from every other. -/
abbrev TriggerId := Nat

structure Trigger where
  id : TriggerId
  name : String
  script : Path
  kinds : List Kind
  tier : Tier := .standard
  /-- The trigger's own condition on events. -/
  accepts : Event → Bool := fun _ => true
  body : List Statement := []

/-- Runs statements in order until one ends the chain or faults. -/
def runChain (event : Event) : List Statement → List Remark × Except Fault Unit
  | [] => ([], .ok ())
  | statement :: rest =>
    let ran := statement event
    match ran.result with
    | .error fault => (ran.remarks, .error fault)
    | .ok false => (ran.remarks, .ok ())
    | .ok true =>
      let (remarks, result) := runChain event rest
      (ran.remarks ++ remarks, result)

namespace Trigger

/-- Runs the statements of a trigger for an event. -/
def execute (trigger : Trigger) (event : Event) : List Remark × Except Fault Unit :=
  runChain event trigger.body

end Trigger

end EventScripts
