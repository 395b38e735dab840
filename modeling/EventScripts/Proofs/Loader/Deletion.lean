import EventScripts.Proofs.FileSystem.Deletion
import EventScripts.Proofs.Loader.Directory
/-!
# Scripts whose files have been deleted

A script is loaded under the location that its path leads to. When the file has
been deleted, the path is known by where it stands itself
(`components_scriptPath_of_deleted`), and that is the same location unless the
path is a link. So the script can be unloaded by the path exactly if it is none
(`unload_deleted_iff`).

`SPEC_FULL.md` §8 wants a path whose file was deleted to match the path that the
script was loaded under.
-/

namespace EventScripts

namespace FileSystem

variable {files after : FileSystem} {at_ there : Location} {p : Path} {name : String}
  {content : Content} {entry : Entry}

/-- **A path to a file that has been deleted** is known by where it stands. -/
theorem components_scriptPath_of_deleted (hwf : files.WellFormed) (hd : files.Deleted at_ after)
    (hfind : files.find p = .ok (at_, .file content)) (hs : files.Standing p there name entry) :
    (after.scriptPath p).components = Path.fromRoot (there ++ [name]) := by
  obtain ⟨front, left, hsteps, hleads⟩ := hs.leads
  -- the path leads nowhere any more
  obtain ⟨e, hnowhere⟩ : ∃ e, after.canonical p = .error e := by
    cases hc : after.canonical p with
    | error e => exact ⟨e, rfl⟩
    | ok resolved =>
      obtain ⟨other, found, -, hw⟩ := exists_walk_of_canonical hc
      rw [hd.workingDirectory] at hw
      exact absurd hw (hd.walk (find_eq_ok.1 hfind).2 other found)
  -- but its directory still leads to where it was
  have hname := fileName?_of_steps hsteps
  obtain ⟨parent, directory, hparent, hdirectory, htext, habs, hcomponents⟩ :=
    exists_directory hname
  have hfront : (steps directory).filterMap Step.component? = front.filterMap Step.component? := by
    rw [hsteps, List.filterMap_append] at hcomponents
    exact (List.append_cancel_right hcomponents).symm
  have hway : after.Leads maxLinks (steps directory)
      (if directory.isAbsolute then [] else after.workingDirectory) left there := by
    rw [habs, hd.workingDirectory]
    exact (hd.leads hleads).congr hfront
  have hthere : after.canonical directory = .ok (Path.ofNames there) := by
    have hfound := find_eq_ok.2 ⟨htext, hway.walk (hd.wellFormed hwf)
      ((hd.wellFormed hwf).start directory).1⟩
    rw [canonical, hfound]
    rfl
  have hjoined : after.scriptPath p = (Path.ofNames there).join ⟨name⟩ := by
    simp only [scriptPath, hnowhere, hparent, hname, hdirectory, hthere]
  rw [hjoined]
  exact Path.components_ofNames_join hs.clear.proper hs.proper

end FileSystem

namespace Registry

variable {σ : Type} {registry : Registry σ} {s : Script σ} {path : Path}

/-- One path takes out the script that is loaded under it, if one is. -/
theorem take_one (registry : Registry σ) (path : Path) :
    (registry.take [path]).1 = (registry.script? path).toList := by
  show [path].filterMap registry.script? = _
  cases h : registry.script? path with
  | none => simp [h]
  | some s => simp [h]

theorem take_one_of_mem (ha : Apart registry.loaded) (hs : s ∈ registry.loaded)
    (h : path.components = s.path.components) : (registry.take [path]).1 = [s] := by
  obtain ⟨found, hfound⟩ := Option.isSome_iff_exists.1 (isLoaded_eq_true_iff.2 ⟨s, hs, h⟩)
  obtain ⟨hmem, hc⟩ := script?_eq_some hfound
  rw [take_one, hfound, ha.eq hmem hs (hc.symm.trans h)]
  rfl

theorem mem_left_of_ne (ha : Apart registry.loaded) (hs : s ∈ registry.loaded)
    (h : path.components ≠ s.path.components) : s ∈ (registry.take [path]).2.loaded := by
  rcases List.mem_append.1 ((take_perm ha [path]).mem_iff.1 hs) with htaken | hleft
  · obtain ⟨-, q, hq, hc⟩ := mem_take htaken
    rw [List.mem_singleton.1 hq] at hc
    exact absurd hc.symm h
  · exact hleft

end Registry

namespace Runtime

variable {σ : Type} [Structure σ]

/-- Unloading by these paths is unloading that script and nothing else. -/
structure UnloadsOnly (rt : Runtime σ) (files : FileSystem) (paths : List Path) (s : Script σ) :
    Prop where
  taken : (rt.registry.take (paths.map files.scriptPath)).1 = [s]
  result : (rt.unload (paths.map files.scriptPath)).2 = [(s.path, s.tally)]
  tally : (rt.unloadScripts files paths).2 = s.tally
  left : ∃ more, Joined { rt with registry := (rt.registry.take (paths.map files.scriptPath)).2 }
    more (rt.unloadScripts files paths).1

theorem unloadsOnly_of_taken {rt : Runtime σ} {files : FileSystem} {paths : List Path}
    {s : Script σ} (h : (rt.registry.take (paths.map files.scriptPath)).1 = [s]) :
    UnloadsOnly rt files paths s := by
  obtain ⟨htally, hleft⟩ := unloadScripts_spec rt files paths
  refine ⟨h, ?_, ?_, hleft⟩
  · simp only [unload, h, map_tallied_unloadPass, List.map_cons, List.map_nil]
  · rw [htally, h]
    simp [Tally.sum_eq]

/-- A script that the path does not name is left alone. -/
theorem stays_of_ne {rt : Runtime σ} (ha : Registry.Apart rt.registry.loaded) {s : Script σ}
    (hs : s ∈ rt.registry.loaded) {files : FileSystem} {p : Path}
    (h : (files.scriptPath p).components ≠ s.path.components) :
    ¬UnloadsOnly rt files [p] s ∧ s ∈ (rt.unloadScripts files [p]).1.registry.loaded := by
  have hleft : s ∈ (rt.registry.take ([p].map files.scriptPath)).2.loaded :=
    Registry.mem_left_of_ne ha hs h
  constructor
  · intro honly
    have htaken : s ∈ (rt.registry.take ([p].map files.scriptPath)).1 := by
      rw [honly.taken]
      exact List.mem_singleton_self s
    exact (Registry.not_mem_paths_of_left hleft).2 (Registry.mem_take htaken).2
  · obtain ⟨-, more, hperm, -⟩ := unloadScripts_spec rt files [p]
    exact hperm.mem_iff.2 (List.mem_append_right _ hleft)

/-- **When the file of a script has been deleted**, the path it was loaded by unloads it, and it
alone, exactly if that path is not a link; if it is one, the script stays. -/
theorem unload_deleted_iff {catalog : Catalog} {rt : Runtime σ} (h : Reachable catalog rt)
    (env : Surroundings σ) (hwf : env.files.WellFormed) {p : Path} {at_ : Location}
    {content : Content} (hfind : env.files.find p = .ok (at_, .file content)) {s : Script σ}
    (hs : s ∈ (rt.load env [p]).1.registry.loaded) (hpath : s.path.same (Path.ofNames at_) = true)
    {after : FileSystem} (hd : env.files.Deleted at_ after) :
    (UnloadsOnly (rt.load env [p]).1 after [p] s ↔
      ∀ own target, env.files.resolve false p ≠ .ok (.found own (.link target))) ∧
    ((∃ own target, env.files.resolve false p = .ok (.found own (.link target))) →
      s ∈ ((rt.load env [p]).1.unloadScripts after [p]).1.registry.loaded) := by
  have hapart : Registry.Apart (rt.load env [p]).1.registry.loaded :=
    apart_load env [p] (apart_of_reachable h)
  obtain ⟨hclear, there, name, entry, hstanding, hentry⟩ :=
    FileSystem.exists_standing hwf hfind
  have hunder : s.path.components = Path.fromRoot at_ := by
    rw [Path.same_iff.1 hpath, Path.components_ofNames hclear.proper]
  have hnamed := FileSystem.components_scriptPath_of_deleted hwf hd hfind hstanding
  rcases hentry with ⟨rfl, hat⟩ | ⟨target, rfl, hat⟩
  · have hresolves := hstanding.resolves
    have hnolink : ∀ own target,
        env.files.resolve false p ≠ .ok (.found own (.link target)) := by
      intro own target hl
      cases hresolves.symm.trans hl
    have htaken := Registry.take_one_of_mem hapart hs (hnamed.trans (hat ▸ hunder.symm))
    exact ⟨⟨fun _ => hnolink, fun _ => unloadsOnly_of_taken htaken⟩,
      fun ⟨own, target, hl⟩ => absurd hl (hnolink own target)⟩
  · have hother : (after.scriptPath p).components ≠ s.path.components := by
      rw [hnamed, hunder, Ne, Path.fromRoot_inj]
      exact hat
    obtain ⟨hnot, hstays⟩ := stays_of_ne hapart hs hother
    exact ⟨⟨fun honly => absurd honly hnot,
      fun hnolink => absurd hstanding.resolves (hnolink _ _)⟩, fun _ => hstays⟩

/-! ## Links on the way and at the end -/

/-- A loader that has loaded one path. -/
def holding (files : FileSystem) (p : Path) : Runtime Handler :=
  (newLoader.load ⟨Demo.grammar, files, {}, []⟩ [p]).1

theorem isLoaded_holding {files : FileSystem} {p file : Path} {tree : Tree}
    (hfile : files.canonical p = .ok file) (htree : (readTree files file).2 = .ok tree) :
    (holding files p).registry.isLoaded file = true := by
  have hs : ({} : Scope).Untroubled := ⟨fun _ => rfl, fun _ => rfl⟩
  have hruns : newLoader.Runs ⟨Demo.grammar, files, {}, []⟩ [p] := by
    rw [runs_iff hs, ← Option.not_isSome_iff_eq_none, Registry.violation?_iff_clash,
      clash_iff_of_empty rfl, not_not]
    exact List.pairwise_singleton _ p
  exact isLoaded_of_runs hs hruns (List.mem_singleton_self p) hfile htree

/-- A script in a directory, and a link to the directory. -/
def linkedDirectory : FileSystem :=
  { entries := [(["l"], .link ⟨"d"⟩), (["d", "a.sk"], .file (.text "")), (["d"], .directory)] }

/-- The path may go through a link. -/
theorem unload_deleted_through_link :
    let rt := holding linkedDirectory ⟨"/l/a.sk"⟩
    ∃ s ∈ rt.registry.loaded, s.path.same ⟨"/d/a.sk"⟩ = true ∧
      UnloadsOnly rt (linkedDirectory.removeTree ["d", "a.sk"]) [⟨"/l/a.sk"⟩] s := by
  have hwf : linkedDirectory.WellFormed :=
    FileSystem.wellFormed_of_entries (by decide) (by decide) nofun
  have hlink : FileSystem.steps ⟨"/l/a.sk"⟩ = [.down "l", .down "a.sk"] ∧
      FileSystem.steps ⟨"d"⟩ = [.down "d"] := by decide +kernel
  have hfile : FileSystem.steps ⟨"/d/a.sk"⟩ = [.down "d", .down "a.sk"] := by decide +kernel
  have hfind : linkedDirectory.find ⟨"/l/a.sk"⟩ = .ok (["d", "a.sk"], .file (.text "")) := by
    rw [FileSystem.find, FileSystem.resolve, hlink.1]
    cbv
  have hresolve : linkedDirectory.resolve false ⟨"/l/a.sk"⟩
      = .ok (.found ["d", "a.sk"] (.file (.text ""))) := by
    rw [FileSystem.resolve, hlink.1]
    cbv
  have hread : (readTree linkedDirectory ⟨"/d/a.sk"⟩).2 = .ok ⟨⟨"/d/a.sk"⟩, []⟩ := by
    rw [readTree, FileSystem.readText, FileSystem.find, FileSystem.resolve, hfile]
    cbv
  have hcanonical : linkedDirectory.canonical ⟨"/l/a.sk"⟩ = .ok ⟨"/d/a.sk"⟩ := by
    rw [FileSystem.canonical, hfind]
    cbv
  obtain ⟨s, hs, hpath⟩ := Registry.isLoaded_eq_true_iff.1 (isLoaded_holding hcanonical hread)
  have hsame : s.path.same ⟨"/d/a.sk"⟩ = true := Path.same_iff.2 hpath.symm
  have hiff := (unload_deleted_iff (.fresh 0) ⟨Demo.grammar, linkedDirectory, {}, []⟩ hwf hfind hs
    hsame (FileSystem.deleted_removeTree hwf rfl)).1
  refine ⟨s, hs, hsame, hiff.2 fun own target hl => ?_⟩
  cases hresolve.symm.trans hl

/-- A script, and a link to it. -/
def linkedScript : FileSystem :=
  { entries := [(["l.sk"], .link ⟨"/a.sk"⟩), (["a.sk"], .file (.text ""))] }

/-- A script that was loaded through a link to its file stays. -/
theorem unload_deleted_link :
    let rt := holding linkedScript ⟨"/l.sk"⟩
    let after := linkedScript.removeTree ["a.sk"]
    ∃ s ∈ rt.registry.loaded, s.path.same ⟨"/a.sk"⟩ = true ∧
      ¬UnloadsOnly rt after [⟨"/l.sk"⟩] s ∧
      s ∈ (rt.unloadScripts after [⟨"/l.sk"⟩]).1.registry.loaded := by
  have hlink : FileSystem.steps ⟨"/l.sk"⟩ = [.down "l.sk"] ∧
      FileSystem.steps ⟨"/"⟩ = [.stay] := by decide +kernel
  have hfile : FileSystem.steps ⟨"/a.sk"⟩ = [.down "a.sk"] := by decide +kernel
  have hcanonical : linkedScript.canonical ⟨"/l.sk"⟩ = .ok ⟨"/a.sk"⟩ := by
    rw [FileSystem.canonical, FileSystem.find, FileSystem.resolve, hlink.1]
    cbv
  have hread : (readTree linkedScript ⟨"/a.sk"⟩).2 = .ok ⟨⟨"/a.sk"⟩, []⟩ := by
    rw [readTree, FileSystem.readText, FileSystem.find, FileSystem.resolve, hfile]
    cbv
  have hnamed : (linkedScript.removeTree ["a.sk"]).scriptPath ⟨"/l.sk"⟩ = ⟨"/l.sk"⟩ := by
    rw [FileSystem.scriptPath, FileSystem.canonical, FileSystem.find, FileSystem.resolve, hlink.1]
    cbv
  obtain ⟨s, hs, hpath⟩ := Registry.isLoaded_eq_true_iff.1 (isLoaded_holding hcanonical hread)
  have hapart : Registry.Apart (holding linkedScript ⟨"/l.sk"⟩).registry.loaded :=
    apart_load _ _ List.Pairwise.nil
  refine ⟨s, hs, Path.same_iff.2 hpath.symm, stays_of_ne hapart hs ?_⟩
  rw [hnamed, ← hpath]
  decide +kernel

end Runtime

end EventScripts
