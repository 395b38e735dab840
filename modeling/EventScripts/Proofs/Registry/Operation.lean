import EventScripts.Loader.Unload
import EventScripts.Proofs.Loader.Kept
import EventScripts.Proofs.Registry.Entries
/-!
# Operations on the registry

The operations on a registry as data, so that a run of them is a list. Whatever
structures do while scripts are unloaded, the registry sees it as scripts being
entered; `registry_unload` says so of the runtime.
-/

namespace EventScripts

namespace Registry

variable {σ : Type}

/-- An operation on a registry. While scripts are unloaded their structures may enter others. -/
inductive Op (σ : Type) where
  | insert (script : Script σ)
  | mark (path : Path)
  | retain (keep : Path → Bool)
  | unload (paths : List Path) (entered : List (Script σ))

namespace Op

/-- The registry after an operation. -/
def apply (registry : Registry σ) : Op σ → Registry σ
  | insert script => registry.enterEach [script]
  | mark path => (registry.markDisabled path).1
  | retain keep => (registry.retainDisabled keep).1
  | unload paths entered =>
    let (scripts, registry) := registry.take paths
    (registry.enterEach entered).leaveMarkers (scripts.map (·.path))

/-- The registry after operations in turn. -/
def applyAll (registry : Registry σ) : List (Op σ) → Registry σ
  | [] => registry
  | op :: rest => applyAll (op.apply registry) rest

end Op

theorem loaded_markDisabled (registry : Registry σ) (path : Path) :
    (registry.markDisabled path).1.loaded = registry.loaded := by
  simp only [markDisabled]
  split
  · rfl
  · split <;> rfl

/-- The operations keep the paths of the loaded scripts different. -/
theorem Op.apart_apply {registry : Registry σ} (h : Apart registry.loaded) (op : Op σ) :
    Apart (op.apply registry).loaded := by
  cases op with
  | insert script => exact apart_enterEach [script] h
  | mark path =>
    rw [Op.apply, loaded_markDisabled]
    exact h
  | retain keep => exact h
  | unload paths entered => exact apart_enterEach entered (apart_left h paths)

end Registry

/-! ## The runtime -/

namespace Runtime

variable {σ : Type}

theorem registry_enter (rt : Runtime σ) (script : Script σ) :
    (rt.enter script).1.registry = Registry.Op.apply rt.registry (.insert script) := by
  simp only [enter, Registry.Op.apply, Registry.enterEach]
  split <;> simp_all [record]

theorem registry_markDisabled (rt : Runtime σ) (path : Path) :
    (rt.markDisabled path).1.registry = Registry.Op.apply rt.registry (.mark path) := by
  simp only [markDisabled, Registry.Op.apply, Registry.markDisabled]
  by_cases hl : rt.registry.isLoaded path.disabled.enabled = true
  · simp [hl, record]
  · by_cases hm : Ordered.contains Path.keyCompare path.disabled rt.registry.disabled = true
    · simp [hl, hm]
    · simp [hl, hm]

/-- The registry of the runtime has come about by entering scripts. -/
def Entered (before : Registry σ) (rt : Runtime σ) : Prop :=
  ∃ scripts, rt.registry = before.enterEach scripts

/-- Whatever a structure does, to the registry it is scripts being entered. -/
theorem kept_entered (before : Registry σ) : Kept (Entered before) where
  record _ _ _ _ h := h
  bind rt trigger h := by
    obtain ⟨scripts, hs⟩ := h
    exact ⟨scripts, (registry_bind rt trigger).trans hs⟩
  release _ _ h := h
  enter rt script h := by
    obtain ⟨scripts, hs⟩ := h
    refine ⟨scripts ++ [script], ?_⟩
    rw [registry_enter, Registry.enterEach_append, ← hs]
    rfl

variable [Structure σ]

theorem map_path_unloadPass : ∀ (rt : Runtime σ) (scripts : List (Script σ)),
    (rt.unloadPass scripts).2.map (·.path) = scripts.map (·.path)
  | _, [] => rfl
  | rt, script :: rest => by
    simp only [unloadPass, List.map_cons]
    rw [map_path_unloadPass]

/-- **Unloading is the operation on the registry**, with what the structures enter meanwhile. -/
theorem registry_unload (rt : Runtime σ) (paths : List Path) :
    ∃ entered, (rt.unload paths).1.registry
      = Registry.Op.apply rt.registry (.unload paths entered) := by
  have hk := kept_entered (rt.registry.take paths).2
  obtain ⟨entered, he⟩ := hk.postUnloadPass _ (hk.unloadPass (rt.registry.take paths).1
    (show Entered _ { rt with registry := (rt.registry.take paths).2 } from ⟨[], rfl⟩))
  refine ⟨entered, ?_⟩
  simp only [unload, Registry.Op.apply]
  rw [← he, map_path_unloadPass]

end Runtime

end EventScripts
