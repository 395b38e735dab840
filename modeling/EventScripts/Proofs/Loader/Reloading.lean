import EventScripts.Proofs.Loader.Asked
import EventScripts.Proofs.Loader.Refusal
import EventScripts.Proofs.Loader.RoundTrip
import EventScripts.Proofs.Loader.Unloading
/-!
# Reloads that are refused

To reload is to unload first and then to load, and it is only the loading that
checks its inputs. What the inputs name is gone by then, and a reload that is
refused does not bring it back. `refused_reload_keeps_iff` says what is left, and
that this is everything exactly if there was nothing to unload. To name a loaded
script twice is enough to lose it (`reload_twice_loses`).

`SPEC_FULL.md` §10.6 has both: reloading is unloading and loading, and a violation is
to be returned before any work starts.
-/

namespace EventScripts.Runtime

variable {σ : Type} {rt mid last : Runtime σ}

/-- The same scripts are loaded, with the same structures, and the same is bound; and no script has
been entered in between. -/
structure StillRuns (rt last : Runtime σ) : Prop where
  loaded : last.registry.loaded = rt.registry.loaded
  router : last.router = rt.router
  entries : Occurrence.entries last.trace = Occurrence.entries rt.trace

theorem StillRuns.refl (rt : Runtime σ) : StillRuns rt rt := ⟨rfl, rfl, rfl⟩

theorem StillRuns.symm (h : StillRuns rt last) : StillRuns last rt :=
  ⟨h.loaded.symm, h.router.symm, h.entries.symm⟩

theorem StillRuns.trans (h : StillRuns rt mid) (h' : StillRuns mid last) : StillRuns rt last :=
  ⟨h'.loaded.trans h.loaded, h'.router.trans h.router, h'.entries.trans h.entries⟩

theorem stillRuns_record (rt : Runtime σ) {os : List Occurrence}
    (h : Occurrence.entries os = []) : StillRuns rt (rt.record os) := by
  refine ⟨rfl, rfl, ?_⟩
  show Occurrence.entries (rt.trace ++ os) = _
  rw [Occurrence.entries_append, h, List.append_nil]

/-- The markers do not matter. -/
theorem stillRuns_scan (rt : Runtime σ) (files : FileSystem) (root : Path) :
    StillRuns rt (rt.scan files root).1 := by
  obtain ⟨os, hos, hscan⟩ := exists_scan rt files root
  rw [hscan]
  have hmarked : StillRuns rt { rt with registry := rt.registry.rescan files root } :=
    ⟨Registry.loaded_rescan rt.registry files root, rfl, rfl⟩
  refine hmarked.trans (stillRuns_record _ ?_)
  refine Occurrence.filterMap_ofSearch hos fun o ho => ?_
  cases o <;> first | rfl | cases ho

/-- Scripts have joined either way. -/
theorem Joined.stillRuns {start : Runtime σ} {more : List (Script σ)} (h : Joined start more mid)
    (hm : StillRuns mid last) : Joined start more last :=
  ⟨hm.loaded ▸ h.1, hm.entries.trans h.2⟩

variable [Structure σ]

/-- A batch that is refused leaves what runs alone. -/
theorem stillRuns_of_refused {env : Surroundings σ} {paths : List Path} {violation : Violation}
    (h : (rt.load env paths).2 = .error (.problem (.violated violation))) :
    StillRuns rt (rt.load env paths).1 := by
  cases hv : rt.registry.violation? [] (Batch.resolved env.files paths) with
  | some _ =>
    rw [load_of_violation hv]
    exact stillRuns_record rt (Occurrence.entries_map (fun _ => rfl) _)
  | none =>
    have hclash := (atomic_of_admitted hv).refused_iff.1 ⟨violation, h⟩
    rw [← rt.registry.violation?_iff_clash, hv] at hclash
    cases hclash

theorem stillRuns_of_refused_directory {env : Surroundings σ} {root : Path} {violation : Violation}
    (h : (rt.loadDirectory env root).2 = .error (.problem (.violated violation))) :
    StillRuns rt (rt.loadDirectory env root).1 :=
  (stillRuns_scan rt env.files root).trans (stillRuns_of_refused h)

/-- **Unloading leaves what runs alone** exactly if none of the paths leads to a loaded script. -/
theorem stillRuns_unloadScripts_iff (rt : Runtime σ) (files : FileSystem) (paths : List Path) :
    StillRuns rt (rt.unloadScripts files paths).1 ↔
      ∀ p ∈ paths, rt.registry.isLoaded (files.scriptPath p) = false := by
  constructor
  · intro hruns
    obtain ⟨-, more, hperm, htrace⟩ := unloadScripts_spec rt files paths
    have hnone : more = [] := by
      have hentries : Occurrence.entries rt.trace
          = Occurrence.entries rt.trace ++ more.map (·.path) := hruns.entries.symm.trans htrace
      simpa using hentries
    rw [hnone, hruns.loaded, List.nil_append] at hperm
    intro p hp
    rw [← Bool.not_eq_true]
    intro hl
    obtain ⟨s, hs, hc⟩ := Registry.isLoaded_eq_true_iff.1 hl
    -- a loaded script that is named would be among those left
    refine (Registry.not_mem_paths_of_left (hperm.mem_iff.1 hs)).2 ⟨_, List.mem_map_of_mem hp, ?_⟩
    exact hc.symm
  · intro hfree
    have hunload : rt.unload (paths.map files.scriptPath) = (rt, []) :=
      unload_of_unnamed (any_same_of_free hfree)
    have hnothing : (rt.unloadScripts files paths).1 = rt.record [] := by
      simp only [unloadScripts, hunload]
      rfl
    rw [hnothing]
    exact stillRuns_record rt rfl

/-- What a reload leaves that has been refused, if it has unloaded what is loaded of `named`. -/
structure AfterRefusal (rt : Runtime σ) (named : List Path) (last : Runtime σ) : Prop where
  /-- What was named is gone, and only that; structures may have entered scripts meanwhile. -/
  left : ∃ more, Joined { rt with registry := (rt.registry.take named).2 } more last
  /-- So everything is as it was exactly if nothing that was loaded has been named. -/
  keeps_iff : StillRuns rt last ↔ ∀ path ∈ named, rt.registry.isLoaded path = false

theorem afterRefusal_of_unloadScripts (files : FileSystem) (paths : List Path)
    (h : StillRuns (rt.unloadScripts files paths).1 last) :
    AfterRefusal rt (paths.map files.scriptPath) last := by
  obtain ⟨-, more, hjoined⟩ := unloadScripts_spec rt files paths
  refine ⟨⟨more, hjoined.stillRuns h⟩, ?_⟩
  rw [List.forall_mem_map, ← stillRuns_unloadScripts_iff]
  exact ⟨fun hruns => hruns.trans h.symm, fun hruns => hruns.trans h⟩

/-- **What a refused reload leaves**, be it of some files or of everything below a directory, in
any state of a loader. -/
theorem refused_reload_keeps_iff (rt : Runtime σ) (env : Surroundings σ) :
    (∀ paths violation, (rt.reload env paths).2 = .error (.problem (.violated violation)) →
      AfterRefusal rt (paths.map env.files.scriptPath) (rt.reload env paths).1) ∧
    ∀ root violation, (rt.reloadDirectory env root).2 = .error (.problem (.violated violation)) →
      AfterRefusal rt (rt.registry.loadedPaths.map env.files.scriptPath)
        (rt.reloadDirectory env root).1 := by
  constructor
  · intro paths violation hrefused
    exact afterRefusal_of_unloadScripts env.files paths (stillRuns_of_refused hrefused)
  · intro root violation hrefused
    refine afterRefusal_of_unloadScripts env.files rt.registry.loadedPaths ?_
    unfold reloadDirectory at hrefused ⊢
    cases hload : (rt.unloadAll env.files).1.loadDirectory env root with
    | mk last result =>
      cases result with
      | ok tally =>
        simp only [hload] at hrefused
        cases hrefused
      | error e =>
        simp only [hload] at hrefused ⊢
        have hruns := stillRuns_of_refused_directory ((congrArg Prod.snd hload).trans hrefused)
        rwa [hload] at hruns

/-! ## A script named twice -/

theorem loaded_holdingOne : holdingOne.registry.tally = ⟨1, 1⟩ ∧
    holdingOne.registry.loadedPaths.any (fun path => path.same ⟨"/b.sk"⟩) = false ∧
    holdingOne.router.triggerCount = 1 := by
  cbv

/-- The file of the script that is loaded, and another. -/
def twoFiles : FileSystem :=
  { entries := [(["a.sk"], .file (.text "")), (["b.sk"], .file (.text ""))] }

/-- To reload a file twice that is not loaded is refused, and a script that is loaded stays. -/
theorem refused_reload_keeps_other :
    let out := holdingOne.reload ⟨Demo.grammar, twoFiles, {}, []⟩ [⟨"/b.sk"⟩, ⟨"/b.sk"⟩]
    (∃ violation, out.2 = .error (.problem (.violated violation))) ∧
      holdingOne.registry.tally = ⟨1, 1⟩ ∧ StillRuns holdingOne out.1 := by
  have hsteps : FileSystem.steps ⟨"/b.sk"⟩ = [.down "b.sk"] := by decide +kernel
  have hfile : twoFiles.canonical ⟨"/b.sk"⟩ = .ok ⟨"/b.sk"⟩ := by
    rw [FileSystem.canonical, FileSystem.find, FileSystem.resolve, hsteps]
    cbv
  obtain ⟨violation, hrefused⟩ : ∃ violation,
      (holdingOne.reload ⟨Demo.grammar, twoFiles, {}, []⟩ [⟨"/b.sk"⟩, ⟨"/b.sk"⟩]).2
        = .error (.problem (.violated violation)) :=
    refused_of_clash (.twice (.refl _) hfile hfile (Path.same_iff.2 rfl))
  have hafter := (refused_reload_keeps_iff holdingOne ⟨Demo.grammar, twoFiles, {}, []⟩).1 _ _
    hrefused
  refine ⟨⟨violation, hrefused⟩, loaded_holdingOne.1,
    hafter.keeps_iff.2 (List.forall_mem_map.2 fun p hp => ?_)⟩
  obtain rfl : p = ⟨"/b.sk"⟩ := by simpa using hp
  rw [FileSystem.scriptPath_of_canonical hfile, ← Bool.not_eq_true]
  intro hl
  obtain ⟨s, hs, hc⟩ := Registry.isLoaded_eq_true_iff.1 hl
  exact List.any_eq_false.1 loaded_holdingOne.2.1 s.path (List.mem_map_of_mem hs)
    (Path.same_iff.2 hc.symm)

/-- To reload a loaded script twice is refused as well, but then the script is gone, and what it
has bound. -/
theorem reload_twice_loses :
    let out := holdingOne.reload ⟨Demo.grammar, oneFile, {}, []⟩ [⟨"/a.sk"⟩, ⟨"/a.sk"⟩]
    out.2 = .error (.problem (.violated (.listedTwice ⟨"/a.sk"⟩))) ∧
      holdingOne.registry.tally = ⟨1, 1⟩ ∧ holdingOne.router.triggerCount = 1 ∧
      out.1.registry.tally = {} ∧ out.1.router.triggerCount = 0 :=
  ⟨by cbv, loaded_holdingOne.1, loaded_holdingOne.2.2, by cbv⟩

end EventScripts.Runtime
