import EventScripts.FileSystem.Change
import EventScripts.Log.Record
import EventScripts.Settings.Document
/-!
# The settings file

Settings are loaded from a file and saved to one; the directories above it are
made when it is saved. Either leaves a log record when it has gone well.

The file of `SPEC_FULL.md` §10.4, and the errors of its loader, §10.3.
-/

namespace EventScripts

/-- Why settings cannot be loaded or saved. -/
inductive SettingsError where
  | missing (path : Path)
  /-- The text does not make settings. -/
  | malformed
  /-- A number is too large to be written. -/
  | unwritable
  | io (error : IoError)
  /-- There is no home directory to look in. -/
  | homeless
deriving DecidableEq, Repr

namespace SettingsError

/-- The error in words. What is wrong with a malformed text is not told. -/
def message : SettingsError → String
  | missing path => s!"config file not found at {path.text}"
  | malformed => "failed to parse config: "
  | unwritable => "failed to serialize config: "
  | io error => s!"IO error on config file: {error.message}"
  | homeless => "cannot determine the config directory (no home directory)"

end SettingsError

namespace Settings

/-- A record of the part of the program that deals with settings. -/
def note (message : String) : Log.Record := ⟨.info, "runner", message⟩

/-- Loads the settings in a file; the record goes with them. -/
def Codec.load (codec : Codec) (files : FileSystem) (path : Path) :
    Except SettingsError (Settings × Log.Record) :=
  if files.exists? path then
    match files.readText path with
    | .error e => .error (.io e)
    | .ok text =>
      match codec.settings? text with
      | some settings => .ok (settings, note s!"Loaded config from {path.text}")
      | none => .error .malformed
  else .error (.missing path)

/-- Makes the directories above a file. -/
def makeParent (files : FileSystem) (path : Path) : FileSystem × Except IoError Unit :=
  match path.parent? with
  | some parent => files.makeDirectories parent
  | none => (files, .ok ())

/-- Saves settings to a file, whatever it held. Directories that have been made stay when the file
cannot be written. -/
def Codec.save (codec : Codec) (settings : Settings) (files : FileSystem) (path : Path) :
    FileSystem × Except SettingsError Log.Record :=
  match makeParent files path with
  | (files, .error e) => (files, .error (.io e))
  | (files, .ok ()) =>
    match codec.render? settings with
    | none => (files, .error .unwritable)
    | some text =>
      match files.write path (.text text) with
      | .error e => (files, .error (.io e))
      | .ok files => (files, .ok (note s!"Saved config to {path.text}"))

/-- Loads a settings file. -/
def load (files : FileSystem) (path : Path) : Except SettingsError (Settings × Log.Record) :=
  Codec.toml.load files path

/-- Saves settings as a settings file. -/
def save (settings : Settings) (files : FileSystem) (path : Path) :
    FileSystem × Except SettingsError Log.Record :=
  Codec.toml.save settings files path

end Settings

end EventScripts
