import EventScripts.Demo.EventLine
import EventScripts.Demo.Grammar
import EventScripts.FileSystem.Change
import EventScripts.Host.Queue
import EventScripts.Log.Filter
import EventScripts.Settings.Basic
/-!
# Sessions

A session is a host that has loaded its scripts and now waits for lines from the
console and for signals. Whatever happens in it goes through the filter to the
console, and to the log file if there is one.

This is the `skhost` program of `SPEC_FULL.md` §10.6 (Runner), from its first load to
its end.
-/

namespace EventScripts.CommandLine

/-- Where log records go: those that pass the filter are printed, and added to the log file. -/
structure Console where
  filter : Log.Filter
  files : FileSystem
  logFile : Option Path := none
  output : List String := []

/-- Logs records. -/
def Console.log (console : Console) (records : List Log.Record) : Console :=
  let lines := (records.filter console.filter.allows).map Log.Record.line
  let files :=
    match console.logFile with
    | none => console.files
    | some path =>
      (console.files.append path (String.join (lines.map (· ++ "\n")))).toOption.getD console.files
  { console with files, output := console.output ++ lines }

/-- A session. `reloads` tells whether a signal reloads the scripts. -/
structure Session where
  console : Console
  reloads : Bool
  host : Host Handler := { runtime := { router := { catalog := Demo.catalog } }, scriptDir := ⟨""⟩ }

namespace Session

/-- A record of the program itself. -/
def note (message : String) : Log.Record := ⟨.info, Settings.programName, message⟩

/-- The records of the declarations that made a catalog. -/
def declared (catalog : Catalog) : List Log.Record :=
  catalog.entries.reverse.map fun (kind, info) =>
    ⟨.debug, "events", s!"Declared event kind {kind} (handler list {info.list})"⟩

/-- The host that some settings ask for, without scripts. -/
def hostOf (settings : Settings) (env : Environment) : Host Handler :=
  let runtime : Runtime Handler :=
    { router := { catalog := Demo.catalog }, workers := settings.scripting.workerThreads }
  { runtime, scriptDir := settings.scripting.directory env }

/-- What the host finds around it. -/
def surroundings (files : FileSystem) : Surroundings Handler := { grammar := Demo.grammar, files }

/-- Takes over a host and logs what has happened in it. -/
def take (session : Session) (host : Host Handler) : Session :=
  { session with
    console := session.console.log (host.trace.flatMap Happening.records)
    host := { host with trace := [] } }

/-- Lets the host handle everything in its queue. -/
def settle (session : Session) : Session :=
  session.take (session.host.drain (surroundings session.console.files))

/-- Goes on from the first load, given its tally. -/
def begin (session : Session) (tally : Tally) : Session :=
  let dir := session.host.scriptDir.text
  let record :=
    note s!"Loaded {tally.files} script(s) with {tally.structures} structure(s) from {dir}"
  { session with console := session.console.log [record] }.settle

/-- A line from the console: the event that it stands for, if any, is handled. -/
def line (session : Session) (text : String) : Session :=
  match Demo.readEvent? text with
  | some event => { session with host := session.host.send (.event event) }.settle
  | none => session

/-- A signal that asks for a reload; it is heeded only if the settings say so. -/
def signal (session : Session) : Session :=
  if session.reloads then { session with host := session.host.signal }.settle else session

/-- The files have been changed from outside. -/
def changeFiles (session : Session) (files : FileSystem) : Session :=
  { session with console := { session.console with files } }

/-- Stops the host, after everything in its queue. -/
def stop (session : Session) : Session :=
  session.take (session.host.runUntilShutdown (surroundings session.console.files))

end Session

end EventScripts.CommandLine
