import EventScripts.Proofs.Loader.Batch
import EventScripts.Proofs.Registry.Operation
/-!
# What operations come to, but for records

Searching a directory changes the markers and nothing else; unloading scripts by
their names, and reloading a directory, add records to the operations that they
are made of. What is recorded by a search is told by `Occurrence.ofSearch`.
-/

namespace EventScripts

/-- What a search may record. -/
def Occurrence.ofSearch : Occurrence → Bool
  | reported .. | discovered .. | markersDropped _ | markerIgnored _ => true
  | _ => false

/-- A view of occurrences in which a search does not show. -/
theorem Occurrence.filterMap_ofSearch {β : Type} {view : Occurrence → Option β}
    {os : List Occurrence} (hos : ∀ o ∈ os, o.ofSearch = true)
    (h : ∀ o, ofSearch o = true → view o = none) : os.filterMap view = [] :=
  List.filterMap_eq_nil_iff.2 fun o ho => h o (hos o ho)

namespace Registry

variable {σ : Type}

/-- Marks scripts one after another. -/
def markAll (registry : Registry σ) (paths : List Path) : Registry σ :=
  paths.foldl (fun registry path => (registry.markDisabled path).1) registry

/-- What a search of a directory makes of the markers. -/
def rescan (registry : Registry σ) (files : FileSystem) (root : Path) : Registry σ :=
  (registry.retainDisabled (Runtime.keepsMarker files (files.scriptPath root))).1.markAll
    ((discover files root).disabled.map files.scriptPath)

theorem loaded_markAll : ∀ (paths : List Path) (registry : Registry σ),
    (registry.markAll paths).loaded = registry.loaded
  | [], _ => rfl
  | path :: rest, registry =>
    (loaded_markAll rest (registry.markDisabled path).1).trans (loaded_markDisabled registry path)

theorem loaded_rescan (registry : Registry σ) (files : FileSystem) (root : Path) :
    (registry.rescan files root).loaded = registry.loaded := loaded_markAll _ _

end Registry

namespace Runtime

variable {σ : Type}

theorem exists_markDisabled (rt : Runtime σ) (path : Path) :
    ∃ os, (∀ o ∈ os, o.ofSearch = true) ∧ (rt.markDisabled path).1
      = { rt with registry := (rt.registry.markDisabled path).1 }.record os := by
  have hregistry := registry_markDisabled rt path
  unfold markDisabled at hregistry ⊢
  split
  · next heq =>
    rw [heq] at hregistry
    refine ⟨[.markerIgnored path.disabled], by simp [Occurrence.ofSearch], ?_⟩
    rw [show (rt.registry.markDisabled path).1 = rt.registry from hregistry.symm]
  · next heq =>
    rw [heq] at hregistry
    refine ⟨[], nofun, ?_⟩
    rw [show (rt.registry.markDisabled path).1 = rt.registry from hregistry.symm]
    simp [record]
  · next heq => exact ⟨[], nofun, by simp [record, heq]⟩

theorem exists_markAll (files : FileSystem) : ∀ (markers : List Path) (rt : Runtime σ),
    ∃ os, (∀ o ∈ os, o.ofSearch = true) ∧
      markers.foldl (fun rt m => (rt.markDisabled (files.scriptPath m)).1) rt
        = { rt with registry := rt.registry.markAll (markers.map files.scriptPath) }.record os
  | [], rt => ⟨[], nofun, by simp [Registry.markAll, record]⟩
  | m :: markers, rt => by
    obtain ⟨os, hos, hfirst⟩ := exists_markDisabled rt (files.scriptPath m)
    obtain ⟨more, hmore, hrest⟩ :=
      exists_markAll files markers (rt.markDisabled (files.scriptPath m)).1
    refine ⟨os ++ more, fun o ho => (List.mem_append.1 ho).elim (hos o) (hmore o), ?_⟩
    rw [List.foldl_cons, hrest, hfirst, ← record_record]
    rfl

/-- **A search** changes the markers, and records what it has found. -/
theorem exists_scan (rt : Runtime σ) (files : FileSystem) (root : Path) :
    ∃ os, (∀ o ∈ os, o.ofSearch = true) ∧ rt.scan files root
      = ({ rt with registry := rt.registry.rescan files root }.record os,
        (discover files root).enabled) := by
  have hretained : ∃ os, (∀ o ∈ os, o.ofSearch = true) ∧
      ((discover files root).problems.foldl report rt).record [.discovered
        (discover files root).enabled.length (discover files root).disabled.length root]
        = rt.record os := by
    rw [foldl_report]
    refine ⟨_, fun o ho => ?_, record_record _ _ _⟩
    rcases List.mem_append.1 ho with ho | ho
    · obtain ⟨problem, -, rfl⟩ := List.mem_map.1 ho
      rfl
    · obtain rfl := List.mem_singleton.1 ho
      rfl
  obtain ⟨os, hos, hfound⟩ := hretained
  have hdropped : ∀ (rt : Runtime σ) (count : Nat), ∃ os, (∀ o ∈ os, o.ofSearch = true) ∧
      (if count = 0 then rt else rt.record [.markersDropped count]) = rt.record os := by
    intro rt count
    split
    · exact ⟨[], nofun, by simp [record]⟩
    · exact ⟨_, by simp [Occurrence.ofSearch], rfl⟩
  simp only [scan, hfound]
  obtain ⟨more, hmore, hkept⟩ := hdropped { rt.record os with
    registry := (rt.registry.retainDisabled (keepsMarker files (files.scriptPath root))).1 }
    (rt.registry.retainDisabled (keepsMarker files (files.scriptPath root))).2
  have hregistry : (rt.record os).registry = rt.registry := rfl
  rw [hregistry, hkept]
  obtain ⟨last, hlast, hmarked⟩ := exists_markAll files (discover files root).disabled
    ({ rt.record os with registry := (rt.registry.retainDisabled
      (keepsMarker files (files.scriptPath root))).1 }.record more)
  refine ⟨os ++ more ++ last, fun o ho => ?_, ?_⟩
  · simp only [List.mem_append] at ho
    exact ho.elim (fun h => h.elim (hos o) (hmore o)) (hlast o)
  · rw [hmarked, ← record_record, ← record_record]
    rfl

theorem registry_scan (rt : Runtime σ) (files : FileSystem) (root : Path) :
    (rt.scan files root).1.registry = rt.registry.rescan files root := by
  obtain ⟨os, -, hscan⟩ := exists_scan rt files root
  rw [hscan]
  rfl

variable [Structure σ]

/-- **To load a directory** is to search it, and to load what has been found as a batch. -/
theorem loadDirectory_eq (rt : Runtime σ) (env : Surroundings σ) (root : Path) :
    rt.loadDirectory env root
      = (rt.scan env.files root).1.load env (discover env.files root).enabled := rfl

/-- **Unloading by names** records what has been unloaded, and how much it was. -/
theorem exists_unloadScripts (rt : Runtime σ) (files : FileSystem) (paths : List Path) :
    ∃ total : List Tally, (rt.unloadScripts files paths).1
      = (rt.unload (paths.map files.scriptPath)).1.record
        (((rt.unload (paths.map files.scriptPath)).2.map fun out => .scriptUnloaded out.1)
          ++ total.map .batchUnloaded) := by
  unfold unloadScripts
  simp only
  split
  · exact ⟨[], by rw [List.map_nil, List.append_nil]⟩
  · exact ⟨[_], record_record _ _ _⟩

/-- **To reload a directory** is to unload everything and to load it. -/
theorem exists_reloadDirectory (rt : Runtime σ) (env : Surroundings σ) (root : Path) :
    ∃ count : List Nat, rt.reloadDirectory env root
      = ((((rt.unloadAll env.files).1.loadDirectory env root).1.record
          (count.map .reloadedNone)),
        ((rt.unloadAll env.files).1.loadDirectory env root).2) := by
  unfold reloadDirectory
  simp only
  cases hload : (rt.unloadAll env.files).1.loadDirectory env root with
  | mk last result =>
    cases result with
    | error e => exact ⟨[], by simp [record]⟩
    | ok tally =>
      simp only
      split
      · exact ⟨[_], rfl⟩
      · exact ⟨[], by simp [record]⟩

end Runtime

end EventScripts
