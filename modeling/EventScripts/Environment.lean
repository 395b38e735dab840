import EventScripts.Path.Basic
/-!
# The environment of the process

The variables that a process is started with, and the directories of a user that
follow from them. A directory for settings or data is named by a variable of its
own; without one it lies at a fixed place in the home directory.

The user directories of `SPEC_FULL.md` §10.4 (`ProjectPaths`), outside of Windows.
-/

namespace EventScripts

/-- Variables and their values. Of two with one name the first counts. -/
structure Environment where
  bindings : List (String × String) := []
deriving Repr

namespace Environment

/-- The value of a variable. -/
def get? (env : Environment) (name : String) : Option String := env.bindings.lookup name

/-- The home directory. -/
def home? (env : Environment) : Option Path :=
  (env.get? "HOME").or (env.get? "USERPROFILE") |>.map (⟨·⟩)

/-- The directory that a variable names, unless it is empty; else the place `fallback` in the home
directory, or below the working directory where there is no home. -/
def directory (env : Environment) (name : String) (fallback : Path) : Path :=
  match (env.get? name).filter (!·.isEmpty) with
  | some dir => ⟨dir⟩
  | none =>
    match env.home? with
    | some home => home.join fallback
    | none => fallback

end Environment

/-- The directories that a program may use for itself. -/
structure UserDirs where
  config : Path
  data : Path
deriving DecidableEq, Repr

/-- The directories of the program with a name; there are none without a home directory. -/
def Environment.userDirs? (env : Environment) (name : String) : Option UserDirs :=
  env.home?.map fun _ =>
    { config := (env.directory "XDG_CONFIG_HOME" ⟨".config"⟩).join ⟨name⟩
      data := (env.directory "XDG_DATA_HOME" ⟨".local/share"⟩).join ⟨name⟩ }

end EventScripts
