import EventScripts.FileSystem.Change
import EventScripts.Settings.Basic
/-!
# The log file

The log file lies among the user's data. It is made when it is missing, and
emptied before use when it has grown over its limit.

`SPEC_FULL.md` §10.2. The file is written at once: there is no writer in the
background.
-/

namespace EventScripts.Log

/-- The number of bytes up to which a log file is kept. -/
def maxSize : Nat := 1024 * 1024

/-- Why there is no log file to write to. -/
inductive FileError where
  | homeless
  | io (error : IoError)
deriving DecidableEq, Repr

/-- Where logs are kept. -/
def directory? (env : Environment) : Option Path :=
  (env.userDirs? Settings.programName).map fun dirs => dirs.data.join ⟨"logs"⟩

/-- Where the log file is. -/
def path? (env : Environment) : Option Path :=
  (directory? env).map fun dir => dir.join ⟨Settings.programName ++ ".log"⟩

/-- Empties a file that is over the limit; a file that is missing stays so. -/
def emptyIfOver (files : FileSystem) (path : Path) : Except IoError FileSystem :=
  match files.size path with
  | .ok n => if maxSize < n then files.write path (.text "") else .ok files
  | .error .notFound => .ok files
  | .error e => .error e

/-- Makes the log file ready; the path is where it is. -/
def openFile (env : Environment) (files : FileSystem) :
    FileSystem × Except FileError Path :=
  match directory? env, path? env with
  | some dir, some path =>
    match files.makeDirectories dir with
    | (files, .error e) => (files, .error (.io e))
    | (files, .ok ()) =>
      match (emptyIfOver files path).bind fun files => files.append path "" with
      | .error e => (files, .error (.io e))
      | .ok files => (files, .ok path)
  | _, _ => (files, .error .homeless)

end EventScripts.Log
