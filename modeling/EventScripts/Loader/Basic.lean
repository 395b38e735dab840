import EventScripts.Discovery
import EventScripts.Loader.Activate
import EventScripts.Loader.Construct
import EventScripts.Loader.Unload
/-!
# Loading, unloading and reloading

A batch of files is resolved, checked and read; its scripts are constructed,
activated and entered into the registry. A batch that names a file twice, or a
file that is loaded, is refused before anything is read. What goes wrong with a
single file or structure is reported and does not keep the others from loading.

This is the `LoadPipeline` of `SPEC_FULL.md` §4.2 with the additions of §10.6
(ScriptLoader): `load` is `loadScripts`, `scan` and `loadDirectory` are
`load_directory`. Paths are resolved as §8 asks for. An operation that may be waited
for in two ways, with a future or by blocking, is one function here.
-/

namespace EventScripts

/-- What an operation finds around the runtime: the grammar, the files, the resource scope, and
the order in which the workers get on with the steps of their tasks. -/
structure Surroundings (σ : Type) where
  grammar : Grammar σ
  files : FileSystem
  scope : Scope := {}
  schedule : List Nat := []

/-- How an operation ends without a result: a problem, or a panic that unwinds to the caller. -/
inductive Interruption where
  | problem (problem : Problem)
  | panic (text : Option String)
deriving DecidableEq, Repr

/-- The path that a script is known by, also when its file is gone: a missing file resolves
through its directory. -/
def FileSystem.scriptPath (files : FileSystem) (path : Path) : Path :=
  match files.canonical path with
  | .ok resolved => resolved
  | .error _ =>
    match path.parent?, path.fileName? with
    | some parent, some name =>
      match files.canonical (if parent.text.isEmpty then ⟨"."⟩ else parent) with
      | .ok parent => parent.join ⟨name⟩
      | .error _ => path
    | _, _ => path

/-- The first of the resolved paths that was seen before or is loaded. -/
def Registry.violation? {σ : Type} (registry : Registry σ) :
    List Path → List Path → Option Violation
  | _, [] => none
  | seen, path :: rest =>
    if seen.any path.same then some (.listedTwice path)
    else if registry.isLoaded path then some (.alreadyLoaded path)
    else registry.violation? (path :: seen) rest

namespace Runtime

variable {σ : Type}

/-- Resolves paths; one that does not resolve is reported and left out. -/
def resolveAll (rt : Runtime σ) (files : FileSystem) : List Path → Runtime σ × List Path
  | [] => (rt, [])
  | path :: rest =>
    match files.canonical path with
    | .ok resolved =>
      let (rt, rest) := rt.resolveAll files rest
      (rt, resolved :: rest)
    | .error e => (rt.report (.unreadable path e)).resolveAll files rest

/-- Reads one script file. -/
def readTree (files : FileSystem) (path : Path) : List Problem × Except Problem Tree :=
  match files.readText path with
  | .error e => ([], .error (.unreadable path e))
  | .ok text =>
    let (problems, nodes) := Source.parse path text
    (problems, nodes.map fun nodes => ⟨path, nodes⟩)

/-- Reads script files; one that cannot be read is reported and left out. -/
def readAll (rt : Runtime σ) (files : FileSystem) : List Path → Runtime σ × List Tree
  | [] => (rt, [])
  | path :: rest =>
    let (problems, tree) := readTree files path
    let rt := problems.foldl report rt
    match tree with
    | .ok tree =>
      let (rt, rest) := rt.readAll files rest
      (rt, tree :: rest)
    | .error problem => (rt.report problem).readAll files rest

/-- Enters the scripts of a batch into the registry, as far as their paths are free. -/
def enterAll (rt : Runtime σ) : List (Script σ) → Runtime σ × Tally
  | [] => (rt, {})
  | script :: rest =>
    match rt.enter script with
    | (rt, .ok ()) =>
      let (rt, tally) :=
        (rt.record [.scriptLoaded script.path script.structures.length]).enterAll rest
      (rt, script.tally + tally)
    | (rt, .error violation) => (rt.report (.violated violation)).enterAll rest

variable [Structure σ]

/-- Constructs scripts; those whose task came to a good end are the second result. With workers
the steps of the tasks come in the order of the schedule, without in the order of the batch. -/
def construct (rt : Runtime σ) (env : Surroundings σ) (trees : List Tree) :
    Runtime σ × List (Script σ) × ScopeUse :=
  let census := rt.registry.census
  let (works, issued) := Construct.scripts env.grammar rt.router.catalog census rt.issued trees
  let schedule := if rt.workers = 0 then [] else env.schedule
  let (results, use, seen) := Task.runAll env.scope census schedule works {}
  (({ rt with issued }).record (.constructing trees.length rt.workers :: seen),
    results.filterMap (·.toOption), use)

/-- Activates constructed scripts within the scope and enters them into the registry. -/
def finish (rt : Runtime σ) (scope : Scope) (scripts : List (Script σ)) (use : ScopeUse) :
    Runtime σ × Except Interruption Tally :=
  let rt := rt.record [.activating, .scopeOpened]
  match scope.openOnce use with
  | (_, .error (.panic text)) => (rt, .error (.panic text))
  | (_, .error fault) => (rt, .error (.problem (.workFailed (.scopeNotOpened fault))))
  | (use, .ok ()) =>
    let (rt, scripts) := rt.activate scripts
    let rt := rt.record [.scopeClosed]
    match (scope.closeOnce use).2 with
    | .error (.panic text) => (rt, .error (.panic text))
    | closed =>
      let rt :=
        match closed with
        | .ok () => rt
        | .error fault => rt.report (.workFailed (.scopeNotClosed fault))
      let (rt, tally) := rt.enterAll scripts
      (rt.record [.batchLoaded tally], .ok tally)

/-- Loads a batch of files. -/
def load (rt : Runtime σ) (env : Surroundings σ) (paths : List Path) :
    Runtime σ × Except Interruption Tally :=
  let (rt, resolved) := rt.resolveAll env.files paths
  match rt.registry.violation? [] resolved with
  | some violation => (rt, .error (.problem (.violated violation)))
  | none =>
    let (rt, trees) := rt.readAll env.files resolved
    let rt := rt.record [.batchStarted trees.length]
    let (rt, scripts, use) := rt.construct env trees
    rt.finish env.scope scripts use

/-- Whether a marker is to be kept by a search below `base`: it lies elsewhere, or its file or its
script's file exists. -/
def keepsMarker (files : FileSystem) (base marker : Path) : Bool :=
  !marker.startsWith base || files.exists? marker || files.exists? marker.enabled

/-- Searches a directory for scripts. Markers whose files are gone are dropped, the disabled
scripts found are marked, and the enabled ones are the second result. -/
def scan (rt : Runtime σ) (files : FileSystem) (root : Path) : Runtime σ × List Path :=
  let found := discover files root
  let rt := found.problems.foldl report rt
  let rt := rt.record [.discovered found.enabled.length found.disabled.length root]
  let (registry, dropped) := rt.registry.retainDisabled (keepsMarker files (files.scriptPath root))
  let rt := { rt with registry }
  let rt := if dropped = 0 then rt else rt.record [.markersDropped dropped]
  let rt := found.disabled.foldl (fun rt m => (rt.markDisabled (files.scriptPath m)).1) rt
  (rt, found.enabled)

/-- Loads the scripts that are found below a directory. -/
def loadDirectory (rt : Runtime σ) (env : Surroundings σ) (root : Path) :
    Runtime σ × Except Interruption Tally :=
  let (rt, paths) := rt.scan env.files root
  rt.load env paths

/-- Unloads the scripts that paths resolve to, as far as they are loaded. -/
def unloadScripts (rt : Runtime σ) (files : FileSystem) (paths : List Path) : Runtime σ × Tally :=
  let (rt, unloaded) := rt.unload (paths.map files.scriptPath)
  let rt := rt.record (unloaded.map fun (path, _) => .scriptUnloaded path)
  let tally := Tally.sum (unloaded.map (·.2))
  (if tally.files = 0 then rt else rt.record [.batchUnloaded tally], tally)

/-- Unloads every loaded script. -/
def unloadAll (rt : Runtime σ) (files : FileSystem) : Runtime σ × Tally :=
  rt.unloadScripts files rt.registry.loadedPaths

/-- Unloads files, as far as they are loaded, and loads them again as one batch. -/
def reload (rt : Runtime σ) (env : Surroundings σ) (paths : List Path) :
    Runtime σ × Except Interruption Tally :=
  let (rt, _) := rt.unloadScripts env.files paths
  rt.load env paths

/-- Unloads everything and loads what is found below a directory. -/
def reloadDirectory (rt : Runtime σ) (env : Surroundings σ) (root : Path) :
    Runtime σ × Except Interruption Tally :=
  let (rt, before) := rt.unloadAll env.files
  match rt.loadDirectory env root with
  | (rt, .error e) => (rt, .error e)
  | (rt, .ok tally) =>
    let rt :=
      if before.files > 0 && tally.files == 0 then rt.record [.reloadedNone before.files] else rt
    (rt, .ok tally)

end Runtime

end EventScripts
