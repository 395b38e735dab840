import EventScripts.Proofs.Discovery
import EventScripts.Proofs.Loader.Construction
import EventScripts.Proofs.Loader.Reloading
import EventScripts.Proofs.Loader.Repetition
import Mathlib.Data.List.Pairwise
/-!
# Directories that are loaded

What is found below a directory is loaded as one batch, and a batch must not
name a file twice. Bad files do no harm: `loadDirectory_of_empty` says that
everything found that can be read is loaded unless two of the paths found lead
to the same file. Then nothing is loaded at all, and a link beside the file it
leads to is enough for that (`loadDirectory_linkBeside`).

`SPEC_FULL.md` §7 wants one bad script never to block the rest of a batch.
-/

namespace EventScripts

/-- The paths lead to different files, as far as they lead anywhere. -/
def FileSystem.LeadApart (files : FileSystem) (paths : List Path) : Prop :=
  paths.Pairwise fun p q =>
    ∀ a b, files.canonical p = .ok a → files.canonical q = .ok b → a.same b = false

/-- Paths that lead apart are told by the files they lead to. -/
theorem FileSystem.LeadApart.eq {files : FileSystem} {paths : List Path}
    (h : files.LeadApart paths) {p q file : Path} (hp : p ∈ paths) (hq : q ∈ paths)
    (hpfile : files.canonical p = .ok file) (hqfile : files.canonical q = .ok file) : p = q := by
  by_contra hne
  have hsymm : Std.Symm fun p q : Path =>
      ∀ a b, files.canonical p = .ok a → files.canonical q = .ok b → a.same b = false := by
    refine ⟨fun p q hpq a b ha hb => ?_⟩
    rw [← Bool.not_eq_true, Path.same_iff, eq_comm, ← Path.same_iff, Bool.not_eq_true]
    exact hpq b a hb ha
  cases (List.Pairwise.forall h hp hq hne _ _ hpfile hqfile).symm.trans (Path.same_iff.2 rfl)

/-- If nothing is loaded, inputs clash only with each other. -/
theorem clash_iff_of_empty {σ : Type} {registry : Registry σ} {files : FileSystem}
    {paths : List Path} (h : registry.loaded = []) :
    Clash registry files paths ↔ ¬files.LeadApart paths := by
  rw [FileSystem.LeadApart, List.pairwise_iff_forall_sublist]
  constructor
  · rintro (⟨hpq, hp, hq, hsame⟩ | ⟨-, -, hl⟩) hapart
    · cases hsame.symm.trans (hapart hpq _ _ hp hq)
    · obtain ⟨s, hs, -⟩ := Registry.isLoaded_eq_true_iff.1 hl
      rw [h] at hs
      cases hs
  · intro hapart
    by_contra hclash
    refine hapart fun {p q} hpq a b hp hq => ?_
    rw [← Bool.not_eq_true]
    exact fun hsame => hclash (.twice hpq hp hq hsame)

namespace Runtime

variable {σ : Type} [Structure σ] {rt : Runtime σ} {env : Surroundings σ} {paths : List Path}

/-- **What a batch that runs has read is loaded.** -/
theorem isLoaded_of_runs (hs : env.scope.Untroubled) (h : rt.Runs env paths) {p file : Path}
    (hp : p ∈ paths) (hfile : env.files.canonical p = .ok file) {tree : Tree}
    (htree : (readTree env.files file).2 = .ok tree) :
    (rt.load env paths).1.registry.isLoaded file = true := by
  have hselected := selected_of_admitted h.admitted
  obtain ⟨os, hload⟩ := load_of_runs h rfl
  generalize (rt.starting env paths).activate (rt.constructed env paths).2.1 = activated
    at hselected hload
  obtain ⟨henter, -, -⟩ := enterAll_spec activated.2 (activated.1.record os) hselected.apart
  -- the file has been read, and so its script is among those that are entered
  have hresolved : file ∈ Batch.resolved env.files paths :=
    List.mem_filterMap.2 ⟨p, hp, by rw [hfile]; rfl⟩
  have hread : tree ∈ Batch.trees env.files (Batch.resolved env.files paths) :=
    List.mem_filterMap.2 ⟨file, hresolved, by rw [htree]; rfl⟩
  have hscript : file ∈ activated.2.map (·.path) := by
    rw [hselected.constructed, paths_constructed hs]
    exact List.mem_map.2 ⟨tree, hread, Batch.path_of_readTree htree⟩
  obtain ⟨s, hmem, rfl⟩ := List.mem_map.1 hscript
  rw [hload]
  show (enterAll _ _).1.registry.isLoaded s.path = true
  rw [henter]
  exact Registry.isLoaded_enterEach hselected.apart hmem

/-- What comes of loading a directory when nothing is loaded. -/
structure DirectoryLoad (rt : Runtime σ) (env : Surroundings σ) (root : Path) : Prop where
  /-- It comes to a good end exactly if the files that are found lie apart. -/
  loads_iff : (∃ tally, (rt.loadDirectory env root).2 = .ok tally) ↔
    env.files.LeadApart (discover env.files root).enabled
  /-- Every file that is found exists; and if it can be read, it is loaded then, and only once. -/
  loaded : env.files.LeadApart (discover env.files root).enabled →
    ∀ p ∈ (discover env.files root).enabled, ∃ file, env.files.canonical p = .ok file ∧
      ∀ tree, (readTree env.files file).2 = .ok tree →
        ∃! s, s ∈ (rt.loadDirectory env root).1.registry.loaded ∧ s.path.same file = true
  /-- Otherwise nothing is loaded. -/
  refused : ¬env.files.LeadApart (discover env.files root).enabled →
    (∃ violation, (rt.loadDirectory env root).2 = .error (.problem (.violated violation))) ∧
      (rt.loadDirectory env root).1.registry.loaded = []

/-- **Loading a directory**, whatever is below it, in a scope that never fails. -/
theorem loadDirectory_of_empty (rt : Runtime σ) (env : Surroundings σ) (root : Path)
    (hempty : rt.registry.loaded = []) (hs : env.scope.Untroubled) : DirectoryLoad rt env root := by
  have hscanned : (rt.scan env.files root).1.registry.loaded = [] :=
    (scan_spec env.files root rt).2.trans hempty
  have hclash : Clash (rt.scan env.files root).1.registry env.files
      (discover env.files root).enabled ↔ ¬env.files.LeadApart (discover env.files root).enabled :=
    clash_iff_of_empty hscanned
  have hruns : (rt.scan env.files root).1.Runs env (discover env.files root).enabled ↔
      env.files.LeadApart (discover env.files root).enabled := by
    rw [runs_iff hs, ← Option.not_isSome_iff_eq_none, Registry.violation?_iff_clash, hclash, not_not]
  constructor
  case loads_iff => exact (load_ok_iff _ _ _).trans hruns
  case loaded =>
    intro hapart p hp
    obtain ⟨file, hfile⟩ := canonical_of_discovered hp
    refine ⟨file, hfile, fun tree htree => ?_⟩
    have hl : (rt.loadDirectory env root).1.registry.isLoaded file = true :=
      isLoaded_of_runs hs (hruns.2 hapart) hp hfile htree
    obtain ⟨s, hmem, hpath⟩ := Registry.isLoaded_eq_true_iff.1 hl
    have hone : Registry.Apart (rt.loadDirectory env root).1.registry.loaded :=
      apart_loadDirectory env root (hempty ▸ List.Pairwise.nil)
    refine ⟨s, ⟨hmem, Path.same_iff.2 hpath.symm⟩, fun s' ⟨hmem', hsame⟩ => ?_⟩
    exact hone.eq hmem' hmem ((Path.same_iff.1 hsame).trans hpath)
  case refused =>
    intro hapart
    obtain ⟨violation, hrefused⟩ : ∃ violation,
        (rt.loadDirectory env root).2 = .error (.problem (.violated violation)) :=
      refused_of_clash (hclash.2 hapart)
    exact ⟨⟨violation, hrefused⟩, (stillRuns_of_refused_directory hrefused).loaded.trans hempty⟩

/-! ## A link beside a script -/

theorem steps_beside : FileSystem.steps ⟨"/a.sk"⟩ = [.down "a.sk"] ∧
    FileSystem.steps ⟨"/b.sk"⟩ = [.down "b.sk"] := by
  decide +kernel

theorem paths_beside : (["a.sk", "b.sk"].map fun name => Path.join ⟨"/"⟩ ⟨name⟩).filter
    (!Discovery.isHidden ·) = [⟨"/a.sk"⟩, ⟨"/b.sk"⟩] := by
  decide +kernel

/-- A script, and a link that leads nowhere. -/
def brokenLink : FileSystem :=
  { entries := [(["b.sk"], .link ⟨"/c.sk"⟩), (["a.sk"], .file (.text ""))] }

theorem find_brokenLink : brokenLink.find ⟨"/a.sk"⟩ = .ok (["a.sk"], .file (.text "")) ∧
    brokenLink.find ⟨"/b.sk"⟩ = .error .notFound := by
  constructor
  · rw [FileSystem.find, FileSystem.resolve, steps_beside.1]
    cbv
  · rw [FileSystem.find, FileSystem.resolve, steps_beside.2]
    cbv

theorem discover_brokenLink : (discover brokenLink ⟨"/"⟩).enabled = [⟨"/a.sk"⟩] := by
  have hfind : brokenLink.find ⟨"/"⟩ = .ok ([], .directory) := by cbv
  have hnames : brokenLink.readDirectory ⟨"/"⟩ = .ok ["a.sk", "b.sk"] := by cbv
  have hlist : Discovery.list brokenLink ⟨"/"⟩ ["a.sk", "b.sk"]
      = { files := [⟨"/a.sk"⟩], problems := [.unreadable ⟨"/b.sk"⟩ .notFound] } := by
    rw [Discovery.list, paths_beside]
    simp [Discovery.Listing.add, find_brokenLink]
  simp only [discover, hfind, Discovery.maxDepth, Discovery.walk, hnames, hlist, Discovery.sorted,
    List.mergeSort_nil, List.mergeSort_singleton]
  decide +kernel

/-- The link does no harm. -/
theorem loadDirectory_brokenLink :
    let out := newLoader.loadDirectory ⟨Demo.grammar, brokenLink, {}, []⟩ ⟨"/"⟩
    (∃ tally, out.2 = .ok tally) ∧
      ∃! s, s ∈ out.1.registry.loaded ∧ s.path.same ⟨"/a.sk"⟩ = true := by
  have hload := loadDirectory_of_empty newLoader ⟨Demo.grammar, brokenLink, {}, []⟩ ⟨"/"⟩ rfl
    ⟨fun _ => rfl, fun _ => rfl⟩
  have hapart : brokenLink.LeadApart (discover brokenLink ⟨"/"⟩).enabled := by
    rw [discover_brokenLink]
    exact List.pairwise_singleton _ _
  have hfile : brokenLink.canonical ⟨"/a.sk"⟩ = .ok ⟨"/a.sk"⟩ := by
    rw [FileSystem.canonical, find_brokenLink.1]
    cbv
  have hread : (readTree brokenLink ⟨"/a.sk"⟩).2 = .ok ⟨⟨"/a.sk"⟩, []⟩ := by
    rw [readTree, FileSystem.readText, find_brokenLink.1]
    cbv
  refine ⟨hload.loads_iff.2 hapart, ?_⟩
  obtain ⟨file, hfile', hloaded⟩ := hload.loaded hapart ⟨"/a.sk"⟩ (discover_brokenLink ▸ by simp)
  cases hfile.symm.trans hfile'
  exact hloaded _ hread

/-- The same script, and a link that leads to it. -/
def linkBeside : FileSystem :=
  { entries := [(["b.sk"], .link ⟨"/a.sk"⟩), (["a.sk"], .file (.text ""))] }

theorem find_linkBeside : linkBeside.find ⟨"/a.sk"⟩ = .ok (["a.sk"], .file (.text "")) ∧
    linkBeside.find ⟨"/b.sk"⟩ = .ok (["a.sk"], .file (.text "")) := by
  constructor
  · rw [FileSystem.find, FileSystem.resolve, steps_beside.1]
    cbv
  · rw [FileSystem.find, FileSystem.resolve, steps_beside.2]
    cbv

/-- Beside a link that leads to it, the script is found and can be read, but is not loaded. -/
theorem loadDirectory_linkBeside :
    let out := newLoader.loadDirectory ⟨Demo.grammar, linkBeside, {}, []⟩ ⟨"/"⟩
    ⟨"/a.sk"⟩ ∈ (discover linkBeside ⟨"/"⟩).enabled ∧
      (readTree linkBeside ⟨"/a.sk"⟩).2 = .ok ⟨⟨"/a.sk"⟩, []⟩ ∧
      (∃ violation, out.2 = .error (.problem (.violated violation))) ∧
      out.1.registry.loaded = [] := by
  have hnames : linkBeside.readDirectory ⟨"/"⟩ = .ok ["a.sk", "b.sk"] := by cbv
  have hfiles : (Discovery.list linkBeside ⟨"/"⟩ ["a.sk", "b.sk"]).files
      = [⟨"/a.sk"⟩, ⟨"/b.sk"⟩] := by
    rw [Discovery.list, paths_beside]
    simp [Discovery.Listing.add, find_linkBeside]
  have ha : ⟨"/a.sk"⟩ ∈ (discover linkBeside ⟨"/"⟩).enabled :=
    mem_enabled_discover hnames (hfiles ▸ by simp) (by decide +kernel)
  have hb : ⟨"/b.sk"⟩ ∈ (discover linkBeside ⟨"/"⟩).enabled :=
    mem_enabled_discover hnames (hfiles ▸ by simp) (by decide +kernel)
  have hfile : linkBeside.canonical ⟨"/a.sk"⟩ = .ok ⟨"/a.sk"⟩ ∧
      linkBeside.canonical ⟨"/b.sk"⟩ = .ok ⟨"/a.sk"⟩ := by
    rw [FileSystem.canonical, FileSystem.canonical, find_linkBeside.1, find_linkBeside.2]
    exact ⟨by cbv, by cbv⟩
  have hread : (readTree linkBeside ⟨"/a.sk"⟩).2 = .ok ⟨⟨"/a.sk"⟩, []⟩ := by
    rw [readTree, FileSystem.readText, find_linkBeside.1]
    cbv
  obtain ⟨violation, hrefused⟩ : ∃ violation,
      (newLoader.loadDirectory ⟨Demo.grammar, linkBeside, {}, []⟩ ⟨"/"⟩).2
        = .error (.problem (.violated violation)) := by
    refine refused_of_clash ((clash_iff_of_empty
      (scan_spec linkBeside ⟨"/"⟩ newLoader).2).2 fun hapart => ?_)
    have heq : (⟨"/a.sk"⟩ : Path) = ⟨"/b.sk"⟩ := hapart.eq ha hb hfile.1 hfile.2
    simp at heq
  exact ⟨ha, hread, ⟨violation, hrefused⟩, (stillRuns_of_refused_directory hrefused).loaded⟩

end Runtime

end EventScripts
