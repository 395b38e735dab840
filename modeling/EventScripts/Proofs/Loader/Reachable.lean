import EventScripts.Proofs.Loader.Agreement
/-!
# The states of a loader

A loader starts without scripts and takes one step after another. Files, scope
and grammar may be others at every step, structures do what they want, and the
registry, which is shared, may be worked on from outside in between. Whatever
comes of it, no two loaded scripts have the same path (`apart_of_reachable`).
-/

namespace EventScripts

namespace Runtime

variable {σ : Type}

/-- Whatever structures do, the loaded scripts differ in their paths. -/
theorem kept_apart : Kept fun rt : Runtime σ => Registry.Apart rt.registry.loaded where
  record _ _ _ _ h := h
  bind rt trigger h := by
    rw [registry_bind]
    exact h
  release _ _ h := h
  enter rt script h := by
    rw [registry_enter]
    exact Registry.Op.apart_apply h _

variable [Structure σ]

/-- A step of a loader, or of whoever else works on its registry. -/
inductive Step : Runtime σ → Runtime σ → Prop
  | load (rt : Runtime σ) (env : Surroundings σ) (paths : List Path) : Step rt (rt.load env paths).1
  | loadDirectory (rt : Runtime σ) (env : Surroundings σ) (root : Path) :
    Step rt (rt.loadDirectory env root).1
  | unloadScripts (rt : Runtime σ) (files : FileSystem) (paths : List Path) :
    Step rt (rt.unloadScripts files paths).1
  | unloadAll (rt : Runtime σ) (files : FileSystem) : Step rt (rt.unloadAll files).1
  | reload (rt : Runtime σ) (env : Surroundings σ) (paths : List Path) :
    Step rt (rt.reload env paths).1
  | reloadDirectory (rt : Runtime σ) (env : Surroundings σ) (root : Path) :
    Step rt (rt.reloadDirectory env root).1
  | dispatch (rt : Runtime σ) (event : Event) (tier : Tier) : Step rt (rt.dispatch event tier).1
  | fire (rt : Runtime σ) (event : Event) : Step rt (rt.fire event).1
  | resize (rt : Runtime σ) (workers : Nat) : Step rt { rt with workers }
  | registry (rt : Runtime σ) (op : Registry.Op σ) :
    Step rt { rt with registry := op.apply rt.registry }

/-- The states of a loader between its steps. -/
inductive Reachable (catalog : Catalog) : Runtime σ → Prop
  | fresh (workers : Nat) : Reachable catalog { router := { catalog }, workers }
  | step {rt after : Runtime σ} : Reachable catalog rt → Step rt after → Reachable catalog after

variable {rt : Runtime σ}

theorem apart_unloadScripts (files : FileSystem) (paths : List Path)
    (h : Registry.Apart rt.registry.loaded) :
    Registry.Apart (rt.unloadScripts files paths).1.registry.loaded := by
  obtain ⟨total, hunload⟩ := exists_unloadScripts rt files paths
  obtain ⟨entered, he⟩ := registry_unload rt (paths.map files.scriptPath)
  rw [hunload]
  show Registry.Apart (rt.unload (paths.map files.scriptPath)).1.registry.loaded
  rw [he]
  exact Registry.Op.apart_apply h _

theorem apart_load (env : Surroundings σ) (paths : List Path)
    (h : Registry.Apart rt.registry.loaded) :
    Registry.Apart (rt.load env paths).1.registry.loaded := by
  rcases load_cases rt env paths with
    ⟨violation, hl⟩ | ⟨built, start, hprepared, -, -, hend⟩
  · rw [hl]
    exact h
  · have hstart : Registry.Apart start.registry.loaded := hprepared.registry ▸ h
    obtain ⟨pre, load, post, hact⟩ := exists_activation start (built.filterMap Built.script?)
    have hactivated := Call.kept_linked kept_apart hact.linked hstart
    rcases hend with ⟨e, hl⟩ | ⟨text, count, -, hl⟩ | ⟨tally, -, hcompleted⟩
    · rw [hl]
      exact hstart
    · rw [hl]
      exact hactivated
    · rw [hcompleted.registry]
      exact Registry.apart_enterEach _ hactivated

theorem apart_loadDirectory (env : Surroundings σ) (root : Path)
    (h : Registry.Apart rt.registry.loaded) :
    Registry.Apart (rt.loadDirectory env root).1.registry.loaded := by
  have hscan : Registry.Apart (rt.scan env.files root).1.registry.loaded := by
    rw [(scan_spec env.files root rt).2]
    exact h
  exact apart_load env _ hscan

theorem apart_reloadDirectory (env : Surroundings σ) (root : Path)
    (h : Registry.Apart rt.registry.loaded) :
    Registry.Apart (rt.reloadDirectory env root).1.registry.loaded := by
  obtain ⟨count, hreload⟩ := exists_reloadDirectory rt env root
  rw [hreload]
  exact apart_loadDirectory env root (apart_unloadScripts env.files rt.registry.loadedPaths h)

theorem apart_step {after : Runtime σ} (hs : Step rt after)
    (h : Registry.Apart rt.registry.loaded) : Registry.Apart after.registry.loaded := by
  cases hs with
  | load env paths => exact apart_load env paths h
  | loadDirectory env root => exact apart_loadDirectory env root h
  | unloadScripts files paths => exact apart_unloadScripts files paths h
  | unloadAll files => exact apart_unloadScripts files _ h
  | reload env paths => exact apart_load env paths (apart_unloadScripts env.files paths h)
  | reloadDirectory env root => exact apart_reloadDirectory env root h
  | dispatch | fire | resize => exact h
  | registry op => exact Registry.Op.apart_apply h op

/-- **The loaded scripts differ in their paths** in every state of a loader. -/
theorem apart_of_reachable {catalog : Catalog} (h : Reachable catalog rt) :
    Registry.Apart rt.registry.loaded := by
  induction h with
  | fresh => exact List.Pairwise.nil
  | step _ hs ih => exact apart_step hs ih

end Runtime

end EventScripts
