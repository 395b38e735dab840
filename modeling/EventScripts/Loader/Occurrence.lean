import EventScripts.Registry.Basic
import EventScripts.Router.Dispatch
/-!
# Occurrences

Everything that can be watched while scripts are loaded, run and unloaded, as
one kind of thing, so that a list of occurrences tells the order of calls,
reports and notifications. A call of a structure and a report carry the census
of the registry at that moment. `logRecords` is the view that a log gives of an
occurrence.

What the error reporter, the observers and the host of `SPEC_FULL.md` §6 are told, and
the log of §10.2.
-/

namespace EventScripts

inductive Occurrence where
  /-- A structure is called in a phase. -/
  | called (phase : Phase) (script : Path) (owner : String) (census : Census)
  | remarked (remark : Remark)
  | reported (problem : Problem) (census : Census)
  /-- The batch is read: so many scripts are about to be constructed. -/
  | batchStarted (scripts : Nat)
  | constructing (scripts workers : Nat)
  | constructed (script : Path) (structures : Nat)
  /-- Construction is over; what follows happens on the caller. -/
  | activating
  | scopeOpened
  | scopeClosed
  /-- A scope failed to close behind work that had panicked. -/
  | closeFailed (fault : Fault)
  | host (call : HostCall)
  | bound (trigger : String) (id : TriggerId)
  | released (id : TriggerId)
  /-- A trigger runs for an event. -/
  | executed (id : TriggerId)
  | entered (script : Path)
  | discarded (script : Path)
  | scriptLoaded (script : Path) (structures : Nat)
  | scriptUnloaded (script : Path)
  | batchLoaded (tally : Tally)
  | batchUnloaded (tally : Tally)
  | discovered (enabled disabled : Nat) (root : Path)
  | markersDropped (count : Nat)
  | markerIgnored (marker : Path)
  /-- A reload that ended without scripts though there were some before. -/
  | reloadedNone (before : Nat)

namespace Occurrence

/-- A record of the part of the program that deals with scripts. -/
def scripting (level : Log.Level) (message : String) : List Log.Record :=
  [⟨level, "scripting", message⟩]

/-- A record of the part of the program that deals with events. -/
def events (message : String) : List Log.Record := [⟨.debug, "events", message⟩]

/-- What a log says about an occurrence. Reports are left to whoever receives them. -/
def logRecords : Occurrence → List Log.Record
  | remarked (.logged record) => [record]
  | constructing scripts workers =>
    scripting .debug s!"Constructing {scripts} script(s) on {workers} worker(s)"
  | constructed script n =>
    scripting .debug s!"Constructed {script.text} with {n} structure(s)"
  | closeFailed fault => scripting .warn s!"Failed to close resource scope: {fault.message}"
  | host (.listen c) => events s!"Registering handler list {c.list} at priority {c.tier.name}"
  | host (.stop c) => events s!"Unregistering handler list {c.list} at priority {c.tier.name}"
  | bound trigger id => events s!"Registered trigger {trigger} (#{id})"
  | released id => events s!"Unregistered trigger #{id}"
  | entered script => scripting .debug s!"Registered script {script.text}"
  | discarded script => scripting .debug s!"Unregistered script {script.text}"
  | batchLoaded t =>
    scripting .info s!"Loaded {t.files} script(s) with {t.structures} structure(s)"
  | batchUnloaded t =>
    scripting .info s!"Unloaded {t.files} script(s) with {t.structures} structure(s)"
  | discovered enabled disabled root =>
    scripting .debug
      s!"Discovered {enabled} enabled and {disabled} disabled script(s) under {root.text}"
  | markersDropped n => scripting .debug s!"Dropped {n} stale disabled marker(s)"
  | markerIgnored marker =>
    scripting .warn s!"Ignoring disabled marker {marker.text} while its script is loaded"
  | reloadedNone n =>
    scripting .warn
      s!"Script reload resulted in zero scripts (was {n}). Check logs for loading errors."
  | _ => []

end Occurrence

/-- The occurrences of one run of a trigger. -/
def Execution.occurrences (census : Census) (execution : Execution) : List Occurrence :=
  .executed execution.trigger.id :: execution.remarks.map .remarked
    ++ (execution.problem?.map (.reported · census)).toList

end EventScripts
