import EventScripts.Loader.Runtime
/-!
# Unloading

The scripts to unload are taken out of the registry first. Then every structure
of every one of them is called to unload, and only after that every one to
finish unloading; at last the scripts leave their markers behind.

This is `unload(scripts)` of `SPEC_FULL.md` §4.4.
-/

namespace EventScripts.Runtime

variable {σ : Type} [Structure σ]

/-- The first pass: every structure of every script unloads. -/
def unloadPass (rt : Runtime σ) : List (Script σ) → Runtime σ × List (Script σ)
  | [] => (rt, [])
  | script :: rest =>
    let (rt, structures) := rt.callAll .unload script.path script.structures
    let (rt, rest) := rt.unloadPass rest
    (rt, { script with structures } :: rest)

/-- The second pass: every structure finishes, and its script is let go. -/
def postUnloadPass (rt : Runtime σ) : List (Script σ) → Runtime σ
  | [] => rt
  | script :: rest =>
    let (rt, _) := rt.callAll .postUnload script.path script.structures
    (rt.record [.discarded script.path]).postUnloadPass rest

/-- Unloads the named scripts, as far as they are loaded. The result lists them in registry
order. -/
def unload (rt : Runtime σ) (paths : List Path) : Runtime σ × List (Path × Tally) :=
  let (scripts, registry) := rt.registry.take paths
  let (rt, scripts) := { rt with registry }.unloadPass scripts
  let rt := rt.postUnloadPass scripts
  ({ rt with registry := rt.registry.leaveMarkers (scripts.map (·.path)) },
    scripts.map fun script => (script.path, script.tally))

end EventScripts.Runtime
