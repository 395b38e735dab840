import EventScripts.Script.Handler
import EventScripts.Text.Decimal
import EventScripts.Text.Cut
/-!
# Probes

Probes are structures for watching a runtime at work. A tracker says in every
phase where it is and how much is bound, and then fails, panics or turns itself
away as its flags tell; a squatter moreover enters a script under its own path
while it is loaded. The statements of a probing trigger say that they run.

Tests load scripts of probes (`SPEC_FULL.md` §10.5); nothing that is said of the
system is said of probes.
-/

namespace EventScripts

/-- A structure that says where it is. -/
structure Probe.Tracker where
  name : String
  priority : Int := standardPriority
  flags : List String := []
  squats : Bool := false
deriving DecidableEq, Repr

inductive Probe where
  | tracker (tracker : Probe.Tracker)
  /-- Says only that it is loaded. -/
  | plain (name : String)
  | handler (handler : Handler)

namespace Probe

/-- The word for a phase in a flag. -/
def flagWord : Phase → String
  | .preLoad => "preload"
  | .load => "load"
  | .postLoad => "postload"
  | .unload => "unload"
  | .postUnload => "postunload"
  | .execute => "execute"

namespace Tracker

def hasFlag (tracker : Tracker) (deed : String) (phase : Phase) : Bool :=
  tracker.flags.contains s!"{deed}-{flagWord phase}"

/-- The line that a tracker says in a phase. -/
def report (tracker : Tracker) (phase : Phase) (script : Path) (router : Router) : Remark :=
  let file := script.fileName?.getD ""
  .said s!"{phase.name} {tracker.name} in {file} {router.channelCount}/{router.triggerCount}"

/-- The end of a tracker's action in a phase. -/
def verdict (tracker : Tracker) (phase : Phase) : Action Probe :=
  .finish (.ok (!tracker.hasFlag "reject" phase)) (.tracker tracker)

/-- Enters a script without structures under a path, and goes on. -/
def squat (script : Path) (next : Action Probe) : Action Probe :=
  .enroll { path := script } fun answer => .remark (.said s!"squat {answer.isOk}") next

/-- What a tracker does in a phase. -/
def act (tracker : Tracker) (phase : Phase) (script : Path) : Action Probe :=
  .look fun router => .remark (tracker.report phase script router) <|
    if tracker.hasFlag "panic" phase then
      .finish (.error (.panic (some s!"{tracker.name} panicked"))) (.tracker tracker)
    else if tracker.hasFlag "fail" phase then
      let fault := (Fault.failure s!"{tracker.name} failed").within s!"during {flagWord phase}"
      .finish (.error fault) (.tracker tracker)
    else if tracker.squats && phase == .load then squat script (tracker.verdict phase)
    else tracker.verdict phase

end Tracker

/-- Does with a probe what a handler does. -/
def ofHandler : Action Handler → Action Probe
  | .finish verdict self => .finish verdict (.handler self)
  | .bind trigger next => .bind trigger fun answer => ofHandler (next answer)
  | .release id next => .release id fun answer => ofHandler (next answer)
  | .enroll script next => .enroll ⟨script.path, script.structures.map .handler⟩ fun answer =>
      ofHandler (next answer)
  | .look next => .look fun router => ofHandler (next router)
  | .remark remark next => .remark remark (ofHandler next)

def name : Probe → String
  | tracker t => t.name
  | plain name => name
  | handler h => h.trigger.name

def priority : Probe → Int
  | tracker t => t.priority
  | plain _ => standardPriority
  | handler h => h.priority

def act (phase : Phase) (script : Path) : Probe → Action Probe
  | tracker t => t.act phase script
  | plain name =>
    if phase == .load then
      .remark (.said s!"{phase.name} {name} in plain") (.finish (.ok true) (plain name))
    else .finish (.ok true) (plain name)
  | handler h => ofHandler (h.act phase)

instance : Structure Probe where
  name := Probe.name
  priority := Probe.priority
  act := Probe.act

end Probe

end EventScripts
