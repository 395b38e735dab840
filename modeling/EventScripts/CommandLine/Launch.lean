import EventScripts.CommandLine.Failure
import EventScripts.CommandLine.Help
import EventScripts.CommandLine.Options
import EventScripts.CommandLine.Session
/-!
# Starting the program

The words of the command line, the environment and the files decide whether a
run ends at once or goes on as a session. A first settings file is made if its
path leads nowhere when it is looked at; settings come from the file that is
named, or from the usual place if there is one, and the command line overrides
them.

`SPEC_FULL.md` §10.4 says where settings come from and what overrides them, §10.6
(Runner) what the `skhost` program does and what `--init-config` is.
-/

namespace EventScripts.CommandLine

/-- What a run comes to: its exit code, what it has printed, and the files after it. -/
structure Outcome where
  code : Nat
  output : List String := []
  errors : List String := []
  files : FileSystem

/-- A run that has been started. -/
inductive Launch where
  | ended (outcome : Outcome)
  | running (session : Session)

/-- A run that a failure has ended. -/
def Outcome.failed (failure : Failure) (files : FileSystem) (output : List String := []) :
    Outcome :=
  { code := 1, output, errors := [failure.line], files }

/-- Makes a first settings file. -/
def initConfig (path? : Option Path) (env : Environment) (files : FileSystem) : Outcome :=
  match path?.or (Settings.defaultPath? env) with
  | none => .failed (.settings .homeless) files
  | some path =>
    if files.exists? path then
      .failed (.message (s!"Config file already exists at {path.text}. "
        ++ "Edit it manually or delete it to create a new one.")) files
    else
      match Settings.initial.save files path with
      | (files, .error e) => .failed (.settings e) files
      | (files, .ok _) => { code := 0, errors := [s!"Config file created at: {path.text}"], files }

/-- Loads the settings: from the file named, or from the usual one, which may be missing. -/
def loadSettings (path? : Option Path) (env : Environment) (files : FileSystem) :
    Except SettingsError Settings :=
  match path? with
  | some path => (Settings.load files path).map (·.1)
  | none =>
    match Settings.defaultPath? env with
    | none => .error .homeless
    | some path =>
      match Settings.load files path with
      | .ok (settings, _) => .ok settings
      | .error (.missing _) => .ok {}
      | .error e => .error e

/-- Settings with what the command line says instead. -/
def Options.override (options : Options) (settings : Settings) : Settings :=
  { settings with
    scripting := { settings.scripting with
      scriptDir := options.scriptDir.or settings.scripting.scriptDir
      workerThreads := options.workers.getD settings.scripting.workerThreads } }

/-- The console of a run, with the log file made ready if there is to be one. -/
def openConsole (options : Options) (settings : Settings) (env : Environment)
    (files : FileSystem) : FileSystem × Except Log.FileError Console :=
  let level : Log.Level := if options.debug = 0 then .info else .debug
  let filter := Log.Filter.ofEnvironment env level
  if settings.logging.file then
    match Log.openFile env files with
    | (files, .error e) => (files, .error e)
    | (files, .ok path) =>
      let console : Console := { filter, files, logFile := some path }
      let console := console.log [⟨.info, "runner", s!"Logging to file: {path.text}"⟩]
      (console.files, .ok console)
  else (files, .ok { filter, files })

/-- Starts the host of a run and loads its scripts. -/
def startHost (settings : Settings) (env : Environment) (console : Console) : Launch :=
  if settings.scripting.enabled then
    let console := console.log (Session.note "Starting skhost..." :: Session.declared Demo.catalog)
    let host := Session.hostOf settings env
    let (host, result) := host.load (Session.surroundings console.files)
    let session := Session.take { console, reloads := settings.scripting.reloadOnSignal } host
    let console := session.console
    match result with
    | .ok tally => .running (session.begin tally)
    | .error (.problem p) => .ended (.failed (.scripts p) console.files console.output)
    | .error (.panic _) => .ended { code := 101, output := console.output, files := console.files }
  else
    let console := console.log [Session.note "Scripting is disabled in the config, nothing to do"]
    .ended { code := 0, output := console.output, files := console.files }

/-- Starts a run with options. -/
def start (options : Options) (env : Environment) (files : FileSystem) : Launch :=
  if options.initConfig then .ended (initConfig options.config env files)
  else
    match loadSettings options.config env files with
    | .error e => .ended (.failed (.message s!"Failed to load config: {e.message}") files)
    | .ok settings =>
      let settings := options.override settings
      match openConsole options settings env files with
      | (files, .error e) => .ended (.failed (.log e) files)
      | (_, .ok console) => startHost settings env console

/-- Starts a run with the words of a command line. -/
def launch (words : List String) (env : Environment) (files : FileSystem) : Launch :=
  match read words with
  | .refused => .ended { code := 2, files }
  | .help => .ended { code := 0, output := helpLines, files }
  | .version => .ended { code := 0, output := [versionLine], files }
  | .run options => start options env files

/-- Ends a session. -/
def finish (session : Session) : Outcome :=
  let session := session.stop
  { code := 0, output := session.console.output, files := session.console.files }

end EventScripts.CommandLine
