import EventScripts.Demo.Grammar
import EventScripts.Proofs.Loader.Reachable
import EventScripts.Proofs.Loader.ScriptPath
import Mathlib
/-!
# Unloading everything

To unload everything, the paths of the loaded scripts are resolved in the files
as they are now, and the scripts that these resolve to are unloaded.
`unloadAll_complete_iff` says when that is everything: when each path still leads
to itself. Removing and renaming files does no harm, symbolic links in their
place do. What structures enter meanwhile stays in the registry either way.

`unload_all` is in `SPEC_FULL.md` §10.6, how it resolves paths in §8.
-/

namespace EventScripts

/-! ## Tallies -/

namespace Tally

theorem foldl_add (tallies : List Tally) : ∀ start : Tally, tallies.foldl (· + ·) start
    = ⟨start.files + (tallies.map (·.files)).sum,
        start.structures + (tallies.map (·.structures)).sum⟩ := by
  induction tallies with
  | nil => exact fun _ => rfl
  | cons t rest ih =>
    intro start
    have hfiles : (start + t).files = start.files + t.files := rfl
    have hstructures : (start + t).structures = start.structures + t.structures := rfl
    rw [List.foldl_cons, ih, hfiles, hstructures]
    simp only [List.map_cons, List.sum_cons, Nat.add_assoc]

theorem sum_eq (tallies : List Tally) :
    sum tallies = ⟨(tallies.map (·.files)).sum, (tallies.map (·.structures)).sum⟩ := by
  rw [sum, foldl_add]
  simp

theorem sum_cons (t : Tally) (tallies : List Tally) : sum (t :: tallies) = t + sum tallies := by
  rw [sum_eq, sum_eq]
  rfl

theorem sum_perm {tallies more : List Tally} (h : tallies.Perm more) : sum tallies = sum more := by
  rw [sum_eq, sum_eq, (h.map _).sum_nat, (h.map _).sum_nat]

theorem files_sum {σ : Type} (scripts : List (Script σ)) :
    (sum (scripts.map Script.tally)).files = scripts.length := by
  rw [sum_eq, List.map_map]
  simp [Function.comp_def, Script.tally]

/-- Some of the scripts make up the tally of all if there are no others. -/
theorem sum_eq_sum_iff {σ : Type} {scripts taken left : List (Script σ)}
    (h : scripts.Perm (taken ++ left)) :
    sum (taken.map Script.tally) = sum (scripts.map Script.tally) ↔ left = [] := by
  constructor
  · intro hs
    have hlength := congrArg Tally.files hs
    rw [files_sum, files_sum, h.length_eq, List.length_append] at hlength
    exact List.length_eq_zero_iff.1 (by omega)
  · rintro rfl
    rw [List.append_nil] at h
    exact (sum_perm (h.map _)).symm

end Tally

namespace Runtime

variable {σ : Type}

/-! ## What structures enter -/

/-- Since the start, scripts have been entered, and it has been recorded which. -/
def Joined (start : Runtime σ) (more : List (Script σ)) (rt : Runtime σ) : Prop :=
  rt.registry.loaded.Perm (more ++ start.registry.loaded) ∧
    Occurrence.entries rt.trace = Occurrence.entries start.trace ++ more.map (·.path)

theorem Joined.record {start rt : Runtime σ} {more : List (Script σ)} (h : Joined start more rt)
    {os : List Occurrence} (hos : Occurrence.entries os = []) :
    Joined start more (rt.record os) := by
  refine ⟨h.1, ?_⟩
  show Occurrence.entries (rt.trace ++ os) = _
  rw [Occurrence.entries_append, hos, List.append_nil, h.2]

/-- Whatever structures do, to the registry it is that scripts join. -/
theorem kept_joined (start : Runtime σ) : Kept fun rt => ∃ more, Joined start more rt where
  record rt os hos _ h := by
    obtain ⟨more, hm⟩ := h
    exact ⟨more, hm.record hos⟩
  bind rt trigger h := by
    obtain ⟨more, hm⟩ := h
    unfold bind
    split
    · exact ⟨more, hm⟩
    · next router calls _ =>
      have hbound : Joined start more { rt with router } := hm
      refine ⟨more, hbound.record ?_⟩
      rw [Occurrence.entries_append, Occurrence.entries_map fun _ => rfl]
      rfl
  release rt id h := by
    obtain ⟨more, hm⟩ := h
    have hreleased : Joined start more { rt with router := (rt.router.release id).1 } := hm
    refine ⟨more, hreleased.record ?_⟩
    rw [Occurrence.entries_append, Occurrence.entries_map fun _ => rfl]
    split <;> rfl
  enter rt script h := by
    obtain ⟨more, hperm, htrace⟩ := h
    unfold enter
    split
    · exact ⟨more, hperm, htrace⟩
    · next registry hi =>
      obtain ⟨hfree, rfl⟩ := Registry.insert_eq_ok hi
      refine ⟨more ++ [script], ?_, ?_⟩
      · refine (Registry.loaded_insert_perm hfree).trans ?_
        rw [List.append_assoc]
        exact (hperm.cons script).trans List.perm_middle.symm
      · show Occurrence.entries (rt.trace ++ [.entered script.path]) = _
        rw [Occurrence.entries_append, htrace, List.map_append, List.append_assoc]
        rfl

/-! ## What is unloaded -/

/-- Nothing is left exactly if the path of each loaded script leads to itself. -/
theorem left_eq_nil_iff {registry : Registry σ} (h : Registry.Apart registry.loaded)
    (files : FileSystem) :
    (registry.take (registry.loadedPaths.map files.scriptPath)).2.loaded = [] ↔
      ∀ s ∈ registry.loaded, (files.scriptPath s.path).same s.path = true := by
  constructor
  · intro hleft s hs
    have hapart : ∀ p ∈ registry.loadedPaths, ∀ q ∈ registry.loadedPaths,
        p.components = q.components → p = q := by
      intro p hp q hq he
      obtain ⟨a, ha, rfl⟩ := List.mem_map.1 hp
      obtain ⟨b, hb, rfl⟩ := List.mem_map.1 hq
      rw [h.eq ha hb he]
    have hcovered : ∀ p ∈ registry.loadedPaths, ∃ q ∈ registry.loadedPaths,
        (files.scriptPath q).components = p.components := by
      intro p hp
      obtain ⟨a, ha, rfl⟩ := List.mem_map.1 hp
      have htaken := (Registry.take_perm h (registry.loadedPaths.map files.scriptPath)).mem_iff.1 ha
      rw [hleft, List.append_nil] at htaken
      obtain ⟨-, r, hr, hc⟩ := Registry.mem_take htaken
      obtain ⟨q, hq, rfl⟩ := List.mem_map.1 hr
      exact ⟨q, hq, hc.symm⟩
    exact Path.same_iff.2 (FileSystem.same_of_covered hapart hcovered s.path (List.mem_map_of_mem hs))
  · intro hsame
    refine List.eq_nil_iff_forall_not_mem.2 fun s hs => ?_
    obtain ⟨hloaded, hnot⟩ := Registry.not_mem_paths_of_left hs
    exact hnot ⟨_, List.mem_map_of_mem (List.mem_map_of_mem hloaded),
      (Path.same_iff.1 (hsame s hloaded)).symm⟩

variable [Structure σ]

theorem length_callAll (phase : Phase) (path : Path) : ∀ (structures : List σ) (rt : Runtime σ),
    (rt.callAll phase path structures).2.length = structures.length
  | [], _ => rfl
  | self :: rest, rt => by
    simp only [callAll, List.length_cons]
    rw [length_callAll phase path rest]

/-- Unloading a script leaves it its path and as many structures. -/
theorem map_tally_unloadPass : ∀ (scripts : List (Script σ)) (rt : Runtime σ),
    (rt.unloadPass scripts).2.map Script.tally = scripts.map Script.tally
  | [], _ => rfl
  | script :: rest, rt => by
    simp only [unloadPass, List.map_cons, Script.tally, length_callAll]
    rw [← map_tally_unloadPass rest]

/-- **Unloading** counts the scripts that are taken out of the registry; those that are left stay
there, and others may join. -/
theorem unloadScripts_spec (rt : Runtime σ) (files : FileSystem) (paths : List Path) :
    (rt.unloadScripts files paths).2
      = Tally.sum ((rt.registry.take (paths.map files.scriptPath)).1.map Script.tally) ∧
    ∃ more, Joined { rt with registry := (rt.registry.take (paths.map files.scriptPath)).2 } more
      (rt.unloadScripts files paths).1 := by
  have hk := kept_joined { rt with registry := (rt.registry.take (paths.map files.scriptPath)).2 }
  obtain ⟨more, hm⟩ := hk.postUnloadPass _ (hk.unloadPass
    (rt.registry.take (paths.map files.scriptPath)).1 ⟨[], .refl _, (List.append_nil _).symm⟩)
  have hunload : Joined { rt with registry := (rt.registry.take (paths.map files.scriptPath)).2 }
      more (rt.unload (paths.map files.scriptPath)).1 := hm
  refine ⟨?_, more, ?_⟩
  · rw [← map_tally_unloadPass]
    simp only [unloadScripts, unload, List.map_map]
    rfl
  · obtain ⟨total, hrecorded⟩ := exists_unloadScripts rt files paths
    rw [hrecorded]
    refine hunload.record ?_
    rw [Occurrence.entries_append, Occurrence.entries_map fun _ => rfl,
      Occurrence.entries_map fun _ => rfl]
    rfl

/-- **Everything is unloaded** exactly if the path of each loaded script still leads to itself; for
a path of names that is to say that no link leads it elsewhere. The registry is empty then, unless
structures have entered scripts meanwhile. -/
theorem unloadAll_complete_iff {catalog : Catalog} {rt : Runtime σ} (h : Reachable catalog rt)
    (files : FileSystem) :
    ((rt.unloadAll files).2 = rt.registry.tally ↔
      ∀ s ∈ rt.registry.loaded, (files.scriptPath s.path).same s.path = true) ∧
    ((rt.unloadAll files).1.registry.loaded = [] ↔
      (∀ s ∈ rt.registry.loaded, (files.scriptPath s.path).same s.path = true) ∧
        Occurrence.entries (rt.unloadAll files).1.trace = Occurrence.entries rt.trace) ∧
    ∀ s ∈ rt.registry.loaded, ∀ names, s.path.components = Path.fromRoot names →
      ((files.scriptPath s.path).same s.path = true ↔ files.Direct s.path names) := by
  have hapart := apart_of_reachable h
  obtain ⟨htally, more, hperm, htrace⟩ := unloadScripts_spec rt files rt.registry.loadedPaths
  rw [← left_eq_nil_iff hapart files]
  refine ⟨?_, ?_, fun s _ names hc => FileSystem.scriptPath_same_iff files hc⟩
  · rw [unloadAll, htally, Registry.tally]
    exact Tally.sum_eq_sum_iff (Registry.take_perm hapart _)
  · have hnone : Occurrence.entries (rt.unloadAll files).1.trace = Occurrence.entries rt.trace
        ↔ more = [] := by
      rw [unloadAll, htrace, List.append_right_eq_self, List.map_eq_nil_iff]
    rw [hnone, ← List.isEmpty_iff, unloadAll, hperm.isEmpty_eq, List.isEmpty_iff,
      List.append_eq_nil_iff, and_comm]

/-! ## A script and a link

Here whole runs of a loader are evaluated (`cbv`). That needs equations of library functions, such
as `List.lookup`, which are spread all over Mathlib. -/

/-- A file with one section. -/
def oneFile : FileSystem := { entries := [(["a.sk"], .file (.text "on join:\n  welcome\n"))] }

/-- A link in its place, and the file that it leads to. -/
def linkedAway : FileSystem :=
  { entries := [(["a.sk"], .link ⟨"/b.txt"⟩), (["b.txt"], .file (.text ""))] }

/-- A loader that has loaded the file. -/
def holdingOne : Runtime Handler :=
  ((⟨⟨Demo.catalog, []⟩, {}, 0, 1, []⟩ : Runtime Handler).load
    ⟨Demo.grammar, oneFile, {}, []⟩ [⟨"/a.sk"⟩]).1

/-- When the file has been removed, the script is unloaded. -/
theorem unloadAll_of_removed :
    holdingOne.registry.tally = ⟨1, 1⟩ ∧
      (holdingOne.unloadAll {}).2 = holdingOne.registry.tally ∧
      (holdingOne.unloadAll {}).1.registry.loaded = [] := by
  have hreach : Reachable Demo.catalog holdingOne := .step (.fresh 0) (.load _ _ _)
  obtain ⟨htally, hempty, -⟩ := unloadAll_complete_iff hreach {}
  obtain ⟨hone, hpaths, hnone⟩ : holdingOne.registry.tally = ⟨1, 1⟩ ∧
      holdingOne.registry.loadedPaths.all
        (fun path => (({} : FileSystem).scriptPath path).same path) = true ∧
      Occurrence.entries (holdingOne.unloadAll {}).1.trace
        = Occurrence.entries holdingOne.trace := by cbv
  have hsame : ∀ s ∈ holdingOne.registry.loaded,
      (({} : FileSystem).scriptPath s.path).same s.path = true :=
    fun s hs => List.all_eq_true.1 hpaths s.path (List.mem_map_of_mem hs)
  exact ⟨hone, htally.2 hsame, hempty.2 ⟨hsame, hnone⟩⟩

/-- When a link has taken the place of the file, the script stays and nothing is unloaded. -/
theorem unloadAll_of_linked :
    let out := holdingOne.unloadAll linkedAway
    holdingOne.registry.tally = ⟨1, 1⟩ ∧ out.2 = {} ∧ out.1.registry.tally = ⟨1, 1⟩ ∧
      out.1.registry.loadedPaths.all (fun path => path.same ⟨"/a.sk"⟩) = true := by
  cbv

end Runtime

end EventScripts
