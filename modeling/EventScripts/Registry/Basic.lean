import EventScripts.Ordered
import EventScripts.Path.Key
import EventScripts.Path.Marker
import EventScripts.Script.Basic
import EventScripts.Script.Problem
/-!
# The registry

The registry knows the loaded scripts and the markers of the disabled ones, both
in the hierarchical order of paths. A script that is loaded has no marker:
loading a script removes its marker, a marker for a loaded script is ignored,
and unloading a script leaves its marker behind.

| here | `SPEC_FULL.md` §4.4, `ScriptRegistry` |
| --- | --- |
| `loaded`, `disabled` | the loaded scripts and the disabled-file markers |
| `take`, `leaveMarkers` | the beginning and the end of `unload(scripts)`; its passes are in `EventScripts.Loader.Unload` |
| `retainDisabled` | the markers that a scan drops (§8) |
| `Census` | what callbacks and reporters may read meanwhile (§8) |
-/

namespace EventScripts

/-- The loaded scripts and the markers, each in increasing order of path keys. -/
structure Registry (σ : Type) where
  loaded : List (Script σ) := []
  disabled : List Path := []

/-- The paths that a registry knows. -/
structure Census where
  loaded : List Path := []
  disabled : List Path := []
deriving DecidableEq, Repr

/-- What marking a script as disabled comes to. -/
inductive Marking where
  | added
  | present
  | ignored
deriving DecidableEq, Repr

namespace Registry

variable {σ : Type}

def loadedPaths (registry : Registry σ) : List Path := registry.loaded.map (·.path)

def census (registry : Registry σ) : Census := ⟨registry.loadedPaths, registry.disabled⟩

/-- The script loaded under a path. -/
def script? (registry : Registry σ) (path : Path) : Option (Script σ) :=
  registry.loaded.find? fun script => Path.keyCompare path script.path == .eq

def isLoaded (registry : Registry σ) (path : Path) : Bool := (registry.script? path).isSome

/-- Whether a script, given by its own path or by its marker, has a marker. -/
def isDisabled (registry : Registry σ) (path : Path) : Bool :=
  Ordered.contains Path.keyCompare path.disabled registry.disabled

/-- The files and structures that are loaded. -/
def tally (registry : Registry σ) : Tally := Tally.sum (registry.loaded.map Script.tally)

/-- Enters a script and removes its marker. A path is entered only once. -/
def insert (registry : Registry σ) (script : Script σ) : Except Violation (Registry σ) :=
  if registry.isLoaded script.path then .error (.alreadyLoaded script.path)
  else
    .ok {
      loaded := Ordered.insert (fun a b => Path.keyCompare a.path b.path) script registry.loaded
      disabled := Ordered.erase Path.keyCompare script.path.disabled registry.disabled }

/-- Adds a marker, unless it belongs to a loaded script. -/
def markDisabled (registry : Registry σ) (path : Path) : Registry σ × Marking :=
  let marker := path.disabled
  if registry.isLoaded marker.enabled then (registry, .ignored)
  else if Ordered.contains Path.keyCompare marker registry.disabled then (registry, .present)
  else ({ registry with disabled := Ordered.insert Path.keyCompare marker registry.disabled }, .added)

/-- Keeps the markers that `keep` holds of; the number is how many went. -/
def retainDisabled (registry : Registry σ) (keep : Path → Bool) : Registry σ × Nat :=
  let kept := registry.disabled.filter keep
  ({ registry with disabled := kept }, registry.disabled.length - kept.length)

/-- Takes out the loaded ones among the named scripts, which come in registry order. -/
def take (registry : Registry σ) (paths : List Path) : List (Script σ) × Registry σ :=
  let keys := Ordered.ofList Path.keyCompare paths
  (keys.filterMap registry.script?,
    { registry with
      loaded := registry.loaded.filter fun s => !Ordered.contains Path.keyCompare s.path keys })

/-- Adds the markers of scripts that have been taken out. -/
def leaveMarkers (registry : Registry σ) (paths : List Path) : Registry σ :=
  { registry with
    disabled := paths.foldl (fun ds p => Ordered.insert Path.keyCompare p.disabled ds)
      registry.disabled }

end Registry

end EventScripts
