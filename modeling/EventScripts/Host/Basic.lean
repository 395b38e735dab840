import EventScripts.Loader.Basic
/-!
# The host

The host owns a runtime, a script directory and a queue of envelopes. It listens
on the channels that the router asks for and delivers an event only at tiers
that it listens on. What the runtime reports and announces comes back to the
host as envelopes at the end of its queue.

`Host.take` turns the trace of the runtime into that effect; the host's own
trace keeps everything, with its own records in between.

This is the `ScriptHost` of `SPEC_FULL.md` §10.6 (Runner), together with its
in-process `EventHost`.
-/

namespace EventScripts

/-- What may lie in the queue of a host: an event, a request, or an announcement about a
script. -/
inductive Envelope where
  | event (event : Event)
  | reload
  | shutdown
  | loaded (script : Path) (structures : Nat)
  | unloaded (script : Path)
  | trouble (script : Path) (message : String)
deriving DecidableEq, Repr

/-- Whether handling an envelope may put others into the queue. -/
def Envelope.isProductive : Envelope → Bool
  | event _ | reload => true
  | shutdown | loaded .. | unloaded _ | trouble .. => false

/-- What happens in a host: an occurrence in its runtime, or a record of its own. -/
inductive Happening where
  | inner (occurrence : Occurrence)
  | said (record : Log.Record)

namespace Happening

/-- A record of the part of the program that runs the host. -/
def runner (level : Log.Level) (message : String) : Log.Record := ⟨level, "runner", message⟩

/-- What the host itself logs of an occurrence in its runtime. -/
def hostRecords : Occurrence → List Log.Record
  | .reported problem _ => [problem.record]
  | .batchStarted n => [runner .debug s!"Loading a batch of {n} script(s)"]
  | .host (.listen c) =>
    [runner .debug s!"Listening on handler list {c.list} at {c.tier.name}"]
  | .host (.stop c) =>
    [runner .debug s!"Stopped listening on handler list {c.list} at {c.tier.name}"]
  | _ => []

/-- The log records of what happens in a host. -/
def records : Happening → List Log.Record
  | inner occurrence => occurrence.logRecords ++ hostRecords occurrence
  | said record => [record]

end Happening

structure Host (σ : Type) where
  runtime : Runtime σ
  scriptDir : Path
  listening : List Channel := []
  queue : List Envelope := []
  reloadRequested : Bool := false
  stopping : Bool := false
  trace : List Happening := []

namespace Host

variable {σ : Type}

/-- The envelopes that an occurrence in the runtime puts into the queue. -/
def envelopesOf : Occurrence → List Envelope
  | .reported problem _ =>
    match problem.script? with
    | some script => [.trouble script problem.message]
    | none => []
  | .scriptLoaded script n => [.loaded script n]
  | .scriptUnloaded script => [.unloaded script]
  | _ => []

/-- The channels that the host listens on after an occurrence. -/
def listen (listening : List Channel) : Occurrence → List Channel
  | .host (.listen c) => if listening.contains c then listening else listening ++ [c]
  | .host (.stop c) => listening.filter (· != c)
  | _ => listening

/-- Takes over a runtime with what occurred in it. -/
def take (host : Host σ) (rt : Runtime σ) : Host σ :=
  { host with
    runtime := { rt with trace := [] }
    listening := rt.trace.foldl listen host.listening
    queue := host.queue ++ rt.trace.flatMap envelopesOf
    trace := host.trace ++ rt.trace.map .inner }

def say (host : Host σ) (level : Log.Level) (message : String) : Host σ :=
  { host with trace := host.trace ++ [.said (Happening.runner level message)] }

/-- Puts an envelope into the queue. -/
def send (host : Host σ) (envelope : Envelope) : Host σ :=
  { host with queue := host.queue ++ [envelope] }

/-- Takes note of a signal from outside the process that asks for a reload. -/
def signal (host : Host σ) : Host σ :=
  let record : Log.Record :=
    ⟨.info, "scripting", "Received SIGUSR2 - triggering script reload"⟩
  { host with trace := host.trace ++ [Happening.said record] }.send .reload

/-- Delivers an event at tiers in turn. -/
def deliverAt (host : Host σ) (event : Event) : List Tier → Host σ × Nat
  | [] => (host, 0)
  | tier :: rest =>
    let (rt, ran) := host.runtime.dispatch event tier
    let (host, more) := (host.take rt).deliverAt event rest
    (host, ran + more)

/-- Delivers an event at every tier that the host listens on; the number is that of the triggers
run. -/
def deliver (host : Host σ) (event : Event) : Host σ × Nat :=
  match host.runtime.router.catalog.list? event.kind with
  | none => (host.say .warn s!"Dropping event of unknown kind {event.kind}", 0)
  | some list => host.deliverAt event (Tier.all.filter fun t => host.listening.contains ⟨list, t⟩)

/-- Handles one envelope. A request to reload is only noted. -/
def handle (host : Host σ) : Envelope → Host σ
  | .event event =>
    let (host, ran) := host.deliver event
    host.say .debug s!"Event {event.kind} ran {ran} trigger(s)"
  | .reload => { host with reloadRequested := true }
  | .shutdown => { host with stopping := true }
  | .loaded script n => host.say .info s!"Loaded {script.text} ({n} structure(s))"
  | .unloaded script => host.say .info s!"Unloaded {script.text}"
  | .trouble script message => host.say .debug s!"Script error in {script.text}: {message}"

variable [Structure σ]

/-- Loads the scripts in the script directory, if there is one. -/
def load (host : Host σ) (env : Surroundings σ) : Host σ × Except Interruption Tally :=
  if env.files.exists? host.scriptDir then
    let (rt, result) := host.runtime.loadDirectory env host.scriptDir
    (host.take rt, result)
  else
    (host.say .warn s!"Script directory {host.scriptDir.text} does not exist, no scripts loaded",
      .ok {})

/-- Unloads everything and loads the script directory again. -/
def reload (host : Host σ) (env : Surroundings σ) : Host σ × Except Interruption Tally :=
  let host := host.say .info s!"Reloading scripts from {host.scriptDir.text}"
  let (rt, result) := host.runtime.reloadDirectory env host.scriptDir
  (host.take rt, result)

/-- Reloads if that has been requested. -/
def serveReload (host : Host σ) (env : Surroundings σ) : Host σ :=
  if host.reloadRequested then
    match { host with reloadRequested := false }.reload env with
    | (host, .ok t) =>
      host.say .info s!"Reloaded {t.files} script(s) with {t.structures} structure(s)"
    | (host, .error (.problem p)) => host.say .error s!"Script reload failed: {p.message}"
    | (host, .error (.panic _)) => host
  else host

/-- Unloads every script. -/
def unloadAll (host : Host σ) (files : FileSystem) : Host σ × Tally :=
  let (rt, tally) := host.runtime.unloadAll files
  (host.take rt, tally)

/-- Stops: everything is unloaded. -/
def stop (host : Host σ) (files : FileSystem) : Host σ :=
  let (host, tally) := host.unloadAll files
  host.say .info s!"Script host stopped, unloaded {tally.files} script(s)"

end Host

end EventScripts
