import EventScripts.Proofs.Discovery
import EventScripts.Proofs.FileSystem.Canonical
import EventScripts.Proofs.Loader.Records
import EventScripts.Proofs.Loader.Repetition
/-!
# Markers and searches

A search of a directory drops markers whose files are gone and marks the
disabled scripts that it finds. Searching once more changes nothing
(`rescan_of_swept`), and it still changes nothing when scripts have been loaded
and unloaded meanwhile, which leave their markers behind (`swept_leaveMarkers`).
Once they are loaded again, the markers are the very same (`disabled_again`).
-/

namespace EventScripts

namespace Registry

variable {σ : Type} {registry : Registry σ} {scripts : List (Script σ)}

/-! ## Markers that scripts remove and leave -/

/-- The marker is that of none of the scripts. -/
def marksNone (scripts : List (Script σ)) (marker : Path) : Bool :=
  scripts.all fun s => Path.keyCompare s.path.disabled marker != .eq

theorem disabled_enterEach : ∀ {scripts : List (Script σ)} {registry : Registry σ},
    Apart scripts → (∀ s ∈ scripts, registry.isLoaded s.path = false) →
    (registry.enterEach scripts).disabled = registry.disabled.filter (marksNone scripts)
  | [], registry, _, _ => (List.filter_eq_self.2 fun _ _ => rfl).symm
  | script :: rest, registry, ha, hfree => by
    obtain ⟨hapart, hrest⟩ := List.pairwise_cons.1 ha
    have hi := insert_of_not_loaded (hfree script List.mem_cons_self)
    have hfree' := fun s hs => (isLoaded_of_insert hi (hapart s hs)).trans
      (hfree s (List.mem_cons_of_mem _ hs))
    unfold enterEach
    rw [hi]
    refine (disabled_enterEach hrest hfree').trans ?_
    rw [Ordered.erase, List.filter_filter]
    exact List.filter_congr fun d _ => Bool.and_comm _ _

theorem mem_leaveMarkers {paths : List Path} {m : Path}
    (h : m ∈ (registry.leaveMarkers paths).disabled) :
    (∃ p ∈ paths, p.disabled = m) ∨ m ∈ registry.disabled := by
  rw [disabled_leaveMarkers] at h
  exact (Ordered.mem_of_mem_foldl_insert _ h).imp_left List.mem_map.1

/-- Markers that are not let through make no difference to what is. -/
theorem filter_leaveMarkers {keep : Path → Bool} : ∀ {paths : List Path} {registry : Registry σ},
    (∀ p ∈ paths, keep p.disabled = false) →
    (registry.leaveMarkers paths).disabled.filter keep = registry.disabled.filter keep
  | [], _, _ => rfl
  | p :: paths, registry, h => by
    have hrest : ((registry.leaveMarkers [p]).leaveMarkers paths).disabled.filter keep
        = (registry.leaveMarkers [p]).disabled.filter keep :=
      filter_leaveMarkers fun q hq => h q (List.mem_cons_of_mem p hq)
    exact hrest.trans (Ordered.filter_insert (h p List.mem_cons_self) _)

/-- **The markers are the same again** when scripts that have been loaded are unloaded, and scripts
of the same paths are loaded. -/
theorem disabled_again {other : Registry σ} {again : List (Script σ)} {paths : List Path}
    (ha : Apart scripts) (hfree : ∀ s ∈ scripts, registry.isLoaded s.path = false)
    (hpaths : ∀ p, p ∈ paths ↔ ∃ s ∈ scripts, s.path = p)
    (hagain : again.map (·.path) = scripts.map (·.path))
    (hloaded : other.loaded = registry.loaded)
    (hdisabled : other.disabled = ((registry.enterEach scripts).leaveMarkers paths).disabled) :
    (other.enterEach again).disabled = (registry.enterEach scripts).disabled := by
  have hmarks : ∀ scripts : List (Script σ), marksNone scripts = fun marker =>
      (scripts.map (·.path)).all fun p => Path.keyCompare p.disabled marker != .eq := by
    intro scripts
    funext marker
    rw [marksNone, List.all_map]
    rfl
  have hsame : marksNone again = marksNone scripts := by rw [hmarks, hmarks, hagain]
  have hapart : Apart again := apart_iff.2 (hagain ▸ apart_iff.1 ha)
  have hfree' : ∀ s ∈ again, other.isLoaded s.path = false := by
    intro s hs
    obtain ⟨s', hs', hp⟩ := List.mem_map.1 (hagain ▸ List.mem_map_of_mem (f := Script.path) hs)
    rw [isLoaded_congr hloaded, ← hp]
    exact hfree s' hs'
  have hown : ∀ p ∈ paths, marksNone scripts p.disabled = false := by
    intro p hp
    obtain ⟨s, hs, rfl⟩ := (hpaths p).1 hp
    refine List.all_eq_false.2 ⟨s, hs, ?_⟩
    rw [Path.keyCompare_eq_iff.2 rfl]
    simp
  rw [disabled_enterEach hapart hfree', hsame, hdisabled, filter_leaveMarkers hown,
    disabled_enterEach ha hfree, List.filter_filter]
  exact List.filter_congr fun d _ => Bool.and_self _

/-! ## Searching again -/

/-- The markers are as a search of the directory leaves them. -/
structure Swept (registry : Registry σ) (files : FileSystem) (root : Path) : Prop where
  keeps : ∀ m ∈ registry.disabled,
    Runtime.keepsMarker files (files.scriptPath root) m = true
  marks : ∀ p ∈ (discover files root).disabled,
    registry.isLoaded (files.scriptPath p).disabled.enabled = true ∨
      Ordered.contains Path.keyCompare (files.scriptPath p).disabled registry.disabled = true

variable {files : FileSystem} {root : Path}

theorem markDisabled_of_marked {path : Path}
    (h : registry.isLoaded path.disabled.enabled = true ∨
      Ordered.contains Path.keyCompare path.disabled registry.disabled = true) :
    (registry.markDisabled path).1 = registry := by
  rcases h with h | h
  · simp [markDisabled, h]
  · simp only [markDisabled, h, if_true]
    split <;> rfl

theorem markAll_of_marked : ∀ {paths : List Path} {registry : Registry σ},
    (∀ p ∈ paths, registry.isLoaded p.disabled.enabled = true ∨
      Ordered.contains Path.keyCompare p.disabled registry.disabled = true) →
    registry.markAll paths = registry
  | [], _, _ => rfl
  | p :: paths, registry, h => by
    have hp := markDisabled_of_marked (h p List.mem_cons_self)
    show ((registry.markDisabled p).1).markAll paths = registry
    rw [hp]
    exact markAll_of_marked fun q hq => h q (List.mem_cons_of_mem p hq)

/-- **A search of what has been searched** changes nothing. -/
theorem rescan_of_swept (h : registry.Swept files root) :
    registry.rescan files root = registry := by
  have hretained : (registry.retainDisabled
      (Runtime.keepsMarker files (files.scriptPath root))).1 = registry := by
    simp only [retainDisabled, List.filter_eq_self.2 h.keeps]
  rw [rescan, hretained]
  refine markAll_of_marked fun p hp => ?_
  obtain ⟨q, hq, rfl⟩ := List.mem_map.1 hp
  exact h.marks q hq

/-- Marking a path enters its marker, unless that is there already or its script is loaded. -/
theorem markDisabled_cases (registry : Registry σ) (path : Path) :
    ((registry.markDisabled path).1 = registry ∧
        (registry.isLoaded path.disabled.enabled = true ∨
          Ordered.contains Path.keyCompare path.disabled registry.disabled = true)) ∨
      (registry.markDisabled path).1.disabled
        = Ordered.insert Path.keyCompare path.disabled registry.disabled := by
  by_cases hl : registry.isLoaded path.disabled.enabled = true
  · exact .inl ⟨markDisabled_of_marked (.inl hl), .inl hl⟩
  · by_cases hm : Ordered.contains Path.keyCompare path.disabled registry.disabled = true
    · exact .inl ⟨markDisabled_of_marked (.inr hm), .inr hm⟩
    · exact .inr (by simp [markDisabled, hl, hm])

/-- What is marked is there afterwards, what has been there still is, and nothing else is. -/
theorem disabled_markAll : ∀ (paths : List Path) (registry : Registry σ),
    (∀ m ∈ (registry.markAll paths).disabled,
      m ∈ registry.disabled ∨ ∃ p ∈ paths, p.disabled = m) ∧
    (∀ m, Ordered.contains Path.keyCompare m registry.disabled = true →
      Ordered.contains Path.keyCompare m (registry.markAll paths).disabled = true) ∧
    ∀ p ∈ paths, registry.isLoaded p.disabled.enabled = true ∨
      Ordered.contains Path.keyCompare p.disabled (registry.markAll paths).disabled = true
  | [], _ => ⟨fun m hm => Or.inl hm, fun m hm => hm, nofun⟩
  | path :: rest, registry => by
    obtain ⟨hmem, hkeeps, hmarks⟩ := disabled_markAll rest (registry.markDisabled path).1
    have hloaded := loaded_markDisabled registry path
    have hfirst := markDisabled_cases registry path
    refine ⟨fun m hm => ?_, fun m hm => hkeeps m ?_, fun p hp => ?_⟩
    · rcases hmem m hm with hm | ⟨p, hp, rfl⟩
      · rcases hfirst with ⟨heq, -⟩ | hinsert
        · rw [heq] at hm
          exact Or.inl hm
        · rw [hinsert] at hm
          rcases Ordered.mem_of_mem_insert hm with rfl | hm
          · exact Or.inr ⟨path, List.mem_cons_self, rfl⟩
          · exact Or.inl hm
      · exact Or.inr ⟨p, List.mem_cons_of_mem path hp, rfl⟩
    · rcases hfirst with ⟨heq, -⟩ | hinsert
      · rw [heq]
        exact hm
      · rw [hinsert, Ordered.contains_insert]
        exact Or.inr hm
    · rcases List.mem_cons.1 hp with rfl | hp
      · rcases hfirst with ⟨heq, hmarked⟩ | hinsert
        · exact hmarked.imp_right fun hm => hkeeps _ (by rw [heq]; exact hm)
        · refine Or.inr (hkeeps _ ?_)
          rw [hinsert, Ordered.contains_insert]
          exact Or.inl (Path.keyCompare_eq_iff.2 rfl)
      · have hrest := hmarks p hp
        rwa [isLoaded_congr hloaded] at hrest

/-- The marker of a resolved path is kept: it is there, or its script is. -/
theorem keepsMarker_of_canonical (hwf : files.WellFormed) {p resolved : Path}
    (h : files.canonical p = .ok resolved) (base : Path) :
    Runtime.keepsMarker files base resolved.disabled = true := by
  have hexists := FileSystem.exists?_of_marker hwf h
  rw [Runtime.keepsMarker, Bool.or_assoc, hexists, Bool.or_true]

/-- **A search** leaves the markers as a search leaves them. -/
theorem swept_rescan (hwf : files.WellFormed) (registry : Registry σ) (root : Path) :
    (registry.rescan files root).Swept files root := by
  obtain ⟨hmem, -, hmarks⟩ := disabled_markAll ((discover files root).disabled.map files.scriptPath)
    (registry.retainDisabled (Runtime.keepsMarker files (files.scriptPath root))).1
  constructor
  case keeps =>
    intro m hm
    rcases hmem m hm with hm | ⟨p, hp, rfl⟩
    · exact (List.mem_filter.1 hm).2
    · obtain ⟨q, hq, rfl⟩ := List.mem_map.1 hp
      obtain ⟨resolved, hresolved⟩ := canonical_of_mem_scripts (List.mem_append_right _ hq)
      rw [FileSystem.scriptPath_of_canonical hresolved]
      exact keepsMarker_of_canonical hwf hresolved _
  case marks =>
    intro p hp
    refine (hmarks (files.scriptPath p) (List.mem_map_of_mem hp)).imp_left fun hl => ?_
    rw [isLoaded_congr (loaded_rescan registry files root)]
    exact hl

/-- **Scripts that have been loaded and unloaded since** leave the markers as a search does, too. -/
theorem swept_leaveMarkers (hwf : files.WellFormed) (h : registry.Swept files root)
    {other : Registry σ} {paths : List Path} (ha : Apart scripts)
    (hfree : ∀ s ∈ scripts, registry.isLoaded s.path = false)
    (hresolved : ∀ s ∈ scripts, ∃ p, files.canonical p = .ok s.path)
    (hpaths : ∀ p, p ∈ paths ↔ ∃ s ∈ scripts, s.path = p)
    (hloaded : other.loaded = registry.loaded)
    (hdisabled : other.disabled = ((registry.enterEach scripts).leaveMarkers paths).disabled) :
    other.Swept files root := by
  constructor
  case keeps =>
    intro m hm
    rw [hdisabled] at hm
    rcases mem_leaveMarkers hm with ⟨p, hp, rfl⟩ | hm
    · obtain ⟨s, hs, rfl⟩ := (hpaths p).1 hp
      obtain ⟨q, hq⟩ := hresolved s hs
      exact keepsMarker_of_canonical hwf hq _
    · rw [disabled_enterEach ha hfree] at hm
      exact h.keeps m (List.mem_filter.1 hm).1
  case marks =>
    intro p hp
    rw [isLoaded_congr hloaded, hdisabled, contains_leaveMarkers]
    -- a marker that a script has removed is one that it has left
    have hback := contains_enterEach (files.scriptPath p).disabled scripts registry
    refine (h.marks p hp).imp_right fun hm => (hback.2 (Or.inl hm)).imp_right ?_
    rintro ⟨s, hs, hsame⟩
    exact ⟨s.path, (hpaths _).2 ⟨s, hs, rfl⟩, hsame⟩

end Registry

end EventScripts
