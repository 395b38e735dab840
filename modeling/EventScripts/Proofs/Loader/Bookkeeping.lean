import EventScripts.Proofs.Loader.Markers
import EventScripts.Proofs.Loader.Notices
/-!
# The markers when a directory has been loaded

Three things happen to the markers one after another: those whose files are gone
are dropped, the disabled scripts that are found are marked, and the scripts that
are loaded lose theirs. Resolving a path, its marker and the script of a marker
are three different things, and a marker is the same under every spelling of its
path. `bookkeeping_loadDirectory` says which markers there are at the end, whatever
comes of the batch.

Two properties of `SPEC_FULL.md` §8 are parts of it: what a scan drops, and that
disabled files are recorded.
-/

namespace EventScripts

namespace Registry

variable {σ : Type} {registry before after : Registry σ} {m : Path}

/-- A marker is there, under some spelling of its path. -/
def Marked (registry : Registry σ) (m : Path) : Prop := ∃ d ∈ registry.disabled, m.same d = true

theorem contains_disabled_iff :
    Ordered.contains Path.keyCompare m registry.disabled = true ↔ registry.Marked m := by
  simp only [Ordered.contains_eq_true_iff, Path.keyCompare_eq_iff, Marked, Path.same_iff]

/-! ## Marking -/

/-- A path is marked, unless its script is loaded. -/
theorem marked_markDisabled (registry : Registry σ) (path m : Path) :
    (registry.markDisabled path).1.Marked m ↔ registry.Marked m ∨
      registry.isLoaded path.disabled.enabled = false ∧ m.same path.disabled = true := by
  rcases markDisabled_cases registry path with ⟨hsame, hl | hm⟩ | hinsert
  · rw [hsame, hl]
    simp
  · rw [hsame]
    refine (or_iff_left_of_imp fun ⟨_, hpath⟩ => ?_).symm
    obtain ⟨d, hd, hpd⟩ := contains_disabled_iff.1 hm
    exact ⟨d, hd, Path.same_iff.2 ((Path.same_iff.1 hpath).trans (Path.same_iff.1 hpd))⟩
  · cases hl : registry.isLoaded path.disabled.enabled with
    | true => simp [markDisabled, hl]
    | false =>
      rw [← contains_disabled_iff, hinsert, Ordered.contains_insert, contains_disabled_iff,
        Path.keyCompare_eq_iff, Path.same_iff, or_comm]
      simp

/-- **Marking paths** one after another comes to marking each of them in what there was. -/
theorem marked_markAll : ∀ (paths : List Path) (registry : Registry σ) (m : Path),
    (registry.markAll paths).Marked m ↔ registry.Marked m ∨
      ∃ p ∈ paths, registry.isLoaded p.disabled.enabled = false ∧ m.same p.disabled = true
  | [], registry, m => by simp [markAll]
  | path :: rest, registry, m => by
    have hloaded := isLoaded_congr (loaded_markDisabled registry path)
    refine (marked_markAll rest (registry.markDisabled path).1 m).trans ?_
    simp only [marked_markDisabled, hloaded, List.mem_cons, exists_eq_or_imp, or_assoc]

/-! ## Entering -/

/-- Scripts have joined those that were loaded, and their markers are gone. -/
structure Joins (before : Registry σ) (scripts : List (Script σ)) (after : Registry σ) : Prop where
  loaded : after.loaded.Perm (scripts ++ before.loaded)
  free : ∀ s ∈ scripts, before.isLoaded s.path = false
  disabled : after.disabled = before.disabled.filter (marksNone scripts)

theorem marksNone_eq_true_iff {scripts : List (Script σ)} :
    marksNone scripts m = true ↔ ∀ s ∈ scripts, s.path.disabled.same m = false := by
  simp only [marksNone, List.all_eq_true, bne_iff_ne, ne_eq, Path.keyCompare_eq_iff,
    ← Path.same_iff, Bool.not_eq_true]

theorem Joins.marked_iff {scripts : List (Script σ)} (h : before.Joins scripts after) :
    after.Marked m ↔ before.Marked m ∧ ∀ s ∈ scripts, s.path.disabled.same m = false := by
  have hspelling : ∀ d, m.same d = true →
      (marksNone scripts d = true ↔ ∀ s ∈ scripts, s.path.disabled.same m = false) := by
    intro d hd
    rw [marksNone_eq_true_iff]
    simp only [← Bool.not_eq_true, Path.same_iff, Path.same_iff.1 hd]
  unfold Marked
  rw [h.disabled]
  constructor
  · rintro ⟨d, hd, hsame⟩
    obtain ⟨hmem, hnone⟩ := List.mem_filter.1 hd
    exact ⟨⟨d, hmem, hsame⟩, (hspelling d hsame).1 hnone⟩
  · rintro ⟨⟨d, hmem, hsame⟩, hnone⟩
    exact ⟨d, List.mem_filter.2 ⟨hmem, (hspelling d hsame).2 hnone⟩, hsame⟩

/-- What is loaded stays loaded. -/
theorem isLoaded_insert {script : Script σ} {path : Path} (hi : before.insert script = .ok after)
    (hl : before.isLoaded path = true) : after.isLoaded path = true := by
  obtain ⟨hfree, rfl⟩ := insert_eq_ok hi
  obtain ⟨t, ht, hpath⟩ := isLoaded_eq_true_iff.1 hl
  have hmem := (loaded_insert_perm hfree).symm.subset (List.mem_cons_of_mem script ht)
  exact isLoaded_eq_true_iff.2 ⟨t, hmem, hpath⟩

/-- What is entered first joins first. -/
theorem Joins.of_insert {script : Script σ} {scripts : List (Script σ)} {last : Registry σ}
    (hi : before.insert script = .ok after) (h : after.Joins scripts last) :
    before.Joins (scripts ++ [script]) last := by
  obtain ⟨hfree, hafter⟩ := insert_eq_ok hi
  constructor
  case loaded =>
    rw [List.append_assoc]
    refine h.loaded.trans (List.Perm.append_left scripts ?_)
    rw [hafter]
    exact loaded_insert_perm hfree
  case free =>
    intro s hs
    rcases List.mem_append.1 hs with hs | hs
    · rw [← Bool.not_eq_true]
      intro hl
      cases (h.free s hs).symm.trans (isLoaded_insert hi hl)
    · rw [List.mem_singleton.1 hs]
      exact hfree
  case disabled =>
    rw [h.disabled, hafter, Ordered.erase, List.filter_filter]
    refine List.filter_congr fun d _ => ?_
    simp only [marksNone, List.all_append, List.all_cons, List.all_nil, Bool.and_true]

/-- **Of the scripts that are entered some join**: those that find their path free. -/
theorem exists_joins : ∀ (scripts : List (Script σ)) (registry : Registry σ),
    ∃ joined, registry.Joins joined (registry.enterEach scripts)
  | [], registry => ⟨[], .refl _, nofun, (List.filter_eq_self.2 fun _ _ => rfl).symm⟩
  | script :: rest, registry => by
    unfold enterEach
    cases hi : registry.insert script with
    | error violation => exact exists_joins rest registry
    | ok after =>
      obtain ⟨joined, h⟩ := exists_joins rest after
      exact ⟨joined ++ [script], h.of_insert hi⟩

end Registry

namespace Runtime

variable {σ : Type}

/-! ## Searching -/

/-- A marker does not lie below a directory, or its file is there, or that of its script. -/
def Stays (files : FileSystem) (base marker : Path) : Prop :=
  marker.startsWith base = true → files.exists? marker = true ∨ files.exists? marker.enabled = true

theorem keepsMarker_iff {files : FileSystem} {base marker : Path} :
    keepsMarker files base marker = true ↔ Stays files base marker := by
  simp only [keepsMarker, Stays, Bool.or_eq_true, Bool.not_eq_true', or_assoc]
  cases marker.startsWith base <;> simp

/-- **The markers after a search**: those that stay, and those of the files that are found. -/
theorem marked_rescan (registry : Registry σ) (files : FileSystem) (root m : Path) :
    (registry.rescan files root).Marked m ↔
      (∃ d ∈ registry.disabled, m.same d = true ∧ Stays files (files.scriptPath root) d) ∨
      ∃ p ∈ (discover files root).disabled, ∃ file, files.canonical p = .ok file ∧
        registry.isLoaded file.disabled.enabled = false ∧ m.same file.disabled = true := by
  rw [Registry.rescan, Registry.marked_markAll]
  refine or_congr ?_ ?_
  · simp only [Registry.Marked, Registry.retainDisabled, List.mem_filter, keepsMarker_iff]
    exact exists_congr fun d => and_right_comm.trans and_assoc
  · constructor
    · rintro ⟨q, hq, hfree, hsame⟩
      obtain ⟨p, hp, rfl⟩ := List.mem_map.1 hq
      obtain ⟨file, hfile⟩ := canonical_of_mem_scripts (List.mem_append_right _ hp)
      rw [FileSystem.scriptPath_of_canonical hfile] at hfree hsame
      exact ⟨p, hp, file, hfile, hfree, hsame⟩
    · rintro ⟨p, hp, file, hfile, hfree, hsame⟩
      rw [← FileSystem.scriptPath_of_canonical hfile] at hfree hsame
      exact ⟨_, List.mem_map_of_mem hp, hfree, hsame⟩

/-! ## Loading -/

variable [Structure σ]

/-- Whatever comes of a batch, to the registry it is scripts being entered. -/
theorem entered_load (rt : Runtime σ) (env : Surroundings σ) (paths : List Path) :
    Entered rt.registry (rt.load env paths).1 := by
  have hnothing : Entered rt.registry rt := ⟨[], rfl⟩
  rcases load_cases rt env paths with ⟨violation, hl⟩ | ⟨built, start, hprepared, -, -, hend⟩
  · rw [hl]
    exact hnothing
  · have hstart : Entered rt.registry start := ⟨[], hprepared.registry⟩
    obtain ⟨pre, load, post, hact⟩ := exists_activation start (built.filterMap Built.script?)
    have hactivated := Call.kept_linked (kept_entered rt.registry) hact.linked hstart
    rcases hend with ⟨e, hl⟩ | ⟨text, count, -, hl⟩ | ⟨tally, -, hcompleted⟩
    · rw [hl]
      exact hstart
    · rw [hl]
      exact hactivated
    · obtain ⟨scripts, hscripts⟩ := hactivated
      refine ⟨scripts ++ (start.activate (built.filterMap Built.script?)).2, ?_⟩
      rw [hcompleted.registry, hscripts, Registry.enterEach_append]

/-- To the registry, loading a directory is a search and scripts that join. -/
theorem joins_loadDirectory (rt : Runtime σ) (env : Surroundings σ) (root : Path) :
    ∃ recorded, (rt.registry.rescan env.files root).Joins recorded
      (rt.loadDirectory env root).1.registry := by
  obtain ⟨scripts, hscripts⟩ :=
    entered_load (rt.scan env.files root).1 env (discover env.files root).enabled
  rw [loadDirectory_eq, hscripts, registry_scan]
  exact Registry.exists_joins scripts _

/-- What there is to say of the markers when a directory has been loaded and scripts have been
recorded by that. -/
structure Bookkeeping (rt : Runtime σ) (env : Surroundings σ) (root : Path)
    (recorded : List (Script σ)) (last : Runtime σ) : Prop where
  /-- What is recorded joins what was loaded, under paths that were free. -/
  loaded : last.registry.loaded.Perm (recorded ++ rt.registry.loaded)
  free : ∀ s ∈ recorded, rt.registry.isLoaded s.path = false
  /-- If structures keep out of the registry, it is what observers are told of. -/
  announced : KeepsAloof σ →
    ∃ noted : List (Script σ), Noted rt last (noted.map loadedNotice) ∧ noted.Perm recorded
  /-- The markers that there are. -/
  marked_iff : ∀ m, last.registry.Marked m ↔
    ((∃ d ∈ rt.registry.disabled, m.same d = true ∧
        Stays env.files (env.files.scriptPath root) d) ∨
      ∃ p ∈ (discover env.files root).disabled, ∃ file, env.files.canonical p = .ok file ∧
        rt.registry.isLoaded file.disabled.enabled = false ∧ m.same file.disabled = true) ∧
    ∀ s ∈ recorded, s.path.disabled.same m = false
  /-- No marker is left below the directory if neither its file is there nor that of its script. -/
  stays : env.files.WellFormed → ∀ m ∈ last.registry.disabled,
    Stays env.files (env.files.scriptPath root) m
  /-- A marker elsewhere is lost only to a script that is recorded. -/
  lost : ∀ m ∈ rt.registry.disabled, m.startsWith (env.files.scriptPath root) = false →
    ¬last.registry.Marked m → ∃ s ∈ recorded, s.path.disabled.same m = true

/-- **The markers when a directory has been loaded**, whatever has come of it. -/
theorem bookkeeping_loadDirectory (rt : Runtime σ) (env : Surroundings σ) (root : Path) :
    ∃ recorded, Bookkeeping rt env root recorded (rt.loadDirectory env root).1 := by
  obtain ⟨recorded, hjoins⟩ := joins_loadDirectory rt env root
  have hscanned := Registry.loaded_rescan rt.registry env.files root
  have hloaded := hjoins.loaded
  rw [hscanned] at hloaded
  have hmarked : ∀ m, (rt.loadDirectory env root).1.registry.Marked m ↔ _ := fun m =>
    (hjoins.marked_iff (m := m)).trans (and_congr_left' (marked_rescan rt.registry env.files root m))
  refine ⟨recorded, ?_⟩
  constructor
  case loaded => exact hloaded
  case free =>
    intro s hs
    rw [← Registry.isLoaded_congr hscanned]
    exact hjoins.free s hs
  case announced =>
    intro hk
    have hend := (batchEnd_load hk (rt.scan env.files root).1 env
      (discover env.files root).enabled).of_quiet (quiet_scan rt env.files root)
    rw [← loadDirectory_eq] at hend
    generalize (rt.loadDirectory env root).2 = result at hend
    cases hend with
    | nothing e hquiet =>
      rw [hquiet.loaded] at hloaded
      have hnone : recorded = [] := List.length_eq_zero_iff.1 (by simpa using hloaded.length_eq)
      exact ⟨[], hquiet.noted, hnone ▸ .refl _⟩
    | entered scripts ha hfree hperm hnoted =>
      exact ⟨scripts, hnoted, (List.perm_append_right_iff _).1 (hperm.symm.trans hloaded)⟩
  case marked_iff => exact hmarked
  case stays =>
    intro hwf m hm
    rw [hjoins.disabled] at hm
    exact keepsMarker_iff.1 ((Registry.swept_rescan hwf _ root).keeps m (List.mem_filter.1 hm).1)
  case lost =>
    intro m hm haway hgone
    by_contra hnone
    refine hgone ((hmarked m).2 ⟨.inl ⟨m, hm, Path.same_iff.2 rfl, fun hbelow => ?_⟩, ?_⟩)
    · rw [haway] at hbelow
      cases hbelow
    · intro s hs
      rw [← Bool.not_eq_true]
      exact fun hsame => hnone ⟨s, hs, hsame⟩

end Runtime

end EventScripts
