import EventScripts.Environment
/-!
# Settings

What can be set, with the values that stand where nothing is set, and the places
that follow from the settings and the environment.

The keys and the defaults of `SPEC_FULL.md` §10.4.
-/

namespace EventScripts

/-- Settings about scripts. -/
structure Settings.Scripting where
  /-- Whether scripts are loaded at all. -/
  enabled : Bool := true
  scriptDir : Option Path := none
  /-- The number of construction workers; with none, construction happens on the caller. -/
  workerThreads : Nat := 0
  /-- Whether a signal reloads all scripts. -/
  reloadOnSignal : Bool := true
deriving DecidableEq, Repr

/-- Settings about logging. -/
structure Settings.Logging where
  /-- Whether the log also goes to a file. -/
  file : Bool := false
deriving DecidableEq, Repr

structure Settings where
  scripting : Settings.Scripting := {}
  logging : Settings.Logging := {}
deriving DecidableEq, Repr

namespace Settings

/-- The name under which the program keeps what belongs to it. -/
def programName : String := "skhost"

/-- The settings that a first settings file is written with. -/
def initial : Settings := { scripting := { workerThreads := 2 } }

/-- The directory of the scripts: the one set, else one among the user's data. -/
def Scripting.directory (scripting : Scripting) (env : Environment) : Path :=
  match scripting.scriptDir with
  | some dir => dir
  | none =>
    match env.userDirs? programName with
    | some dirs => dirs.data.join ⟨"scripts"⟩
    | none => ⟨"scripts"⟩

/-- Where the settings are kept when no other place is given. -/
def defaultPath? (env : Environment) : Option Path :=
  (env.userDirs? programName).map fun dirs => dirs.config.join ⟨"skhost.toml"⟩

end Settings

end EventScripts
