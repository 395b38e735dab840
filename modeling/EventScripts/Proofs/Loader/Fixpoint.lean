import EventScripts.Proofs.Loader.Markers
import EventScripts.Proofs.Loader.Numbering
/-!
# Loading again what has been unloaded

When everything has been unloaded, what is left are scripts that no path of a
loaded script leads to any more (`OutOfReach`). A batch that is loaded into such
a state is just what is unloaded next (`cleared_load`); and if it is loaded once
more then, it comes to the same but for the identities (`resembles_load`). The
markers that the scripts have removed and left behind cancel out because a
search of the same files keeps all of them (`Registry.swept_leaveMarkers`).
-/

namespace EventScripts

/-! ## Other identities -/

theorem tallies_map {σ : Type} (f : σ → σ) (scripts : List (Script σ)) :
    (scripts.map (Script.map f)).map Script.tally = scripts.map Script.tally := by
  rw [List.map_map]
  refine List.map_congr_left fun script _ => ?_
  simp only [Function.comp_apply, Script.tally, Script.map, List.length_map]

/-- The handler with another identity. -/
def Handler.renamed (ids : TriggerId → TriggerId) (handler : Handler) : Handler :=
  { handler with trigger := handler.trigger.renamed ids }

theorem triggersOf_map (ids : TriggerId → TriggerId) (scripts : List (Script Handler)) :
    triggersOf (scripts.map (Script.map (Handler.renamed ids)))
      = (triggersOf scripts).map (Trigger.renamed ids) := by
  simp only [triggersOf, List.flatMap_map, List.map_flatMap, Script.map, List.map_map]
  rfl

section

variable {ids : TriggerId → TriggerId} {router other : Router} {ts : List Trigger}

theorem Router.Serves.bound_renamed (h : router.Serves ts)
    (h' : other.Serves (ts.map (Trigger.renamed ids))) (hcatalog : other.catalog = router.catalog)
    (c : Channel) : other.bound c = (router.bound c).map (Trigger.renamed ids) := by
  rw [h.bound, h'.bound, hcatalog, List.filter_map]
  rfl

theorem Router.Serves.isListening_renamed (h : router.Serves ts)
    (h' : other.Serves (ts.map (Trigger.renamed ids))) (hcatalog : other.catalog = router.catalog)
    (c : Channel) : other.isListening c = router.isListening c := by
  rw [h.isListening, h'.isListening, hcatalog, wanted, wanted, List.any_map]
  rfl

end

/-! ## Registries whose structures are mapped -/

namespace Registry

variable {σ : Type}

theorem enterEach_map (f : σ → σ) : ∀ (scripts : List (Script σ)) (registry : Registry σ),
    (registry.map f).enterEach (scripts.map (Script.map f)) = (registry.enterEach scripts).map f
  | [], _ => rfl
  | script :: rest, registry => by
    simp only [List.map_cons, enterEach, insert_map]
    cases registry.insert script <;> exact enterEach_map f rest _

theorem violation?_congr {registry other : Registry σ} (h : registry.loaded = other.loaded) :
    ∀ seen paths : List Path, registry.violation? seen paths = other.violation? seen paths
  | _, [] => rfl
  | seen, path :: rest => by
    simp only [violation?, isLoaded_congr h, violation?_congr h (path :: seen) rest]

end Registry

namespace Runtime

/-! ## What cannot be unloaded -/

section

variable {σ : Type}

/-- No path of a loaded script leads to a loaded script. -/
def OutOfReach (files : FileSystem) (registry : Registry σ) : Prop :=
  ∀ s ∈ registry.loaded, (registry.loadedPaths.map files.scriptPath).any s.path.same = false

theorem OutOfReach.congr {files : FileSystem} {registry other : Registry σ}
    (h : OutOfReach files registry) (hloaded : other.loaded = registry.loaded) :
    OutOfReach files other := by
  have hpaths : other.loadedPaths = registry.loadedPaths :=
    congrArg (List.map fun s : Script σ => s.path) hloaded
  intro s hs
  rw [hpaths]
  exact h s (hloaded ▸ hs)

/-- **What is left** when everything has been unloaded is out of reach. -/
theorem outOfReach_unloadAll [Structure σ] (ha : KeepsAloof σ) (rt : Runtime σ)
    (files : FileSystem) : OutOfReach files (rt.unloadAll files).1.registry := by
  have hleft : (rt.unloadAll files).1.registry.loaded = rt.registry.loaded.filter fun s =>
      !(rt.registry.loadedPaths.map files.scriptPath).any s.path.same := by
    rw [unloadAll, registry_unloadScripts ha, Registry.take_snd]
    rfl
  intro s hs
  rw [hleft, List.mem_filter, Bool.not_eq_true'] at hs
  refine List.any_eq_false.2 fun q hq => List.any_eq_false.1 hs.2 q ?_
  -- the paths that are left are among those that there were
  obtain ⟨p, hp, rfl⟩ := List.mem_map.1 hq
  obtain ⟨left, hmem, rfl⟩ := List.mem_map.1 hp
  rw [hleft, List.mem_filter] at hmem
  exact List.mem_map_of_mem (List.mem_map_of_mem hmem.1)

end

/-! ## What a batch adds -/

variable {catalog : Catalog} {rt last : Runtime Handler} {env : Surroundings Handler}
  {paths : List Path} {served : List Trigger}

/-- The scripts that a batch of handlers adds: all that have been constructed, unless the batch is
refused. -/
def additions (rt : Runtime Handler) (env : Surroundings Handler) (paths : List Path) :
    List (Script Handler) :=
  match rt.registry.violation? [] (Batch.resolved env.files paths) with
  | some _ => []
  | none => (rt.constructed env paths).2.1

/-- What loading a batch comes to, if `added` are the scripts that it adds. -/
structure Loading (rt : Runtime Handler) (env : Surroundings Handler) (paths : List Path)
    (added : List (Script Handler)) : Prop where
  registry : (rt.load env paths).1.registry = rt.registry.enterEach added
  result : (rt.load env paths).2
    = match rt.registry.violation? [] (Batch.resolved env.files paths) with
      | some violation => .error (.problem (.violated violation))
      | none => .ok (Tally.sum (added.map Script.tally))
  apart : Registry.Apart added
  free : ∀ s ∈ added, rt.registry.isLoaded s.path = false
  resolved : ∀ s ∈ added, ∃ p, env.files.canonical p = .ok s.path
  serves : ∀ {served}, rt.router.Serves served →
    (rt.load env paths).1.router.Serves (served ++ triggersOf added)
  settled : Settled rt (rt.load env paths).1
  issued : rt.issued ≤ (rt.load env paths).1.issued

theorem loading_additions (hg : env.grammar.Faithful) (hu : env.scope.Untroubled)
    (h : Numbered catalog rt) (paths : List Path) :
    Loading rt env paths (rt.additions env paths) := by
  unfold additions
  cases hv : rt.registry.violation? [] (Batch.resolved env.files paths) with
  | some violation =>
    have hload := load_eq rt env paths
    rw [hv] at hload
    refine ⟨by rw [hload]; rfl, by rw [hload, hv], List.Pairwise.nil, nofun, nofun,
      fun hs => ?_, ?_, ?_⟩
    · rw [hload, triggersOf, List.flatMap_nil, List.append_nil]
      exact hs
    · rw [hload]
      exact ⟨rfl, rfl⟩
    · rw [hload]
      exact Nat.le_refl _
  | none =>
    have hr := (runs_iff hu).2 hv
    obtain ⟨served, hs, hbelow⟩ := h.exists_serves
    have he := entering_constructed hg hu hs hbelow hr
    refine ⟨he.registry, by rw [hv]; exact he.tally, he.apart, he.free, fun s hs => ?_,
      fun hs => ?_, he.settled, ?_⟩
    · obtain ⟨p, -, hp⟩ := List.mem_filterMap.1 (he.resolved s hs)
      refine ⟨p, ?_⟩
      cases hc : env.files.canonical p with
      | error e =>
        rw [hc] at hp
        cases hp
      | ok resolved =>
        rw [hc] at hp
        exact congrArg Except.ok (Option.some.inj hp)
    · rw [← owned_handlers]
      exact he.serves owning_handler hs
    · rw [issued_load hr]
      exact (constructed_below hg hu rt paths).1

/-! ## Unloading it -/

/-- Everything that has been added is unloaded, and nothing else. -/
structure Cleared (rt last : Runtime Handler) (files : FileSystem) (root : Path)
    (served : List Trigger) (added : List (Script Handler)) : Prop where
  loaded : last.registry.loaded = rt.registry.loaded
  disabled : ∃ paths, (∀ p, p ∈ paths ↔ ∃ s ∈ added, s.path = p) ∧
    last.registry.disabled = ((rt.registry.enterEach added).leaveMarkers paths).disabled
  swept : last.registry.Swept files root
  serves : last.router.Serves served
  settled : Settled rt last
  issued : rt.issued ≤ last.issued

theorem Cleared.record {files : FileSystem} {root : Path} {added : List (Script Handler)}
    (h : Cleared rt last files root served added) (os : List Occurrence) :
    Cleared rt (last.record os) files root served added :=
  ⟨h.loaded, h.disabled, h.swept, h.serves, ⟨h.settled.workers, h.settled.catalog⟩, h.issued⟩

/-- The paths of all scripts lead to those that the batch has added, and to no other. -/
theorem take_loading (hwf : env.files.WellFormed) (h : Numbered catalog rt)
    (hreach : OutOfReach env.files rt.registry) {added : List (Script Handler)}
    (hload : Loading rt env paths added) {mid : Registry Handler}
    (hmid : mid = rt.registry.enterEach added) :
    (mid.take (mid.loadedPaths.map env.files.scriptPath)).1.Perm added ∧
      (mid.take (mid.loadedPaths.map env.files.scriptPath)).2.loaded = rt.registry.loaded := by
  have hperm : mid.loaded.Perm (added ++ rt.registry.loaded) := by
    rw [hmid]
    refine Registry.loaded_enterEach_of_free hload.apart fun p hp => ?_
    obtain ⟨s, hs, rfl⟩ := List.mem_map.1 hp
    exact hload.free s hs
  -- the path of an added script leads to that script
  have hself : ∀ s ∈ added, env.files.scriptPath s.path = s.path := by
    intro s hs
    obtain ⟨p, hp⟩ := hload.resolved s hs
    exact FileSystem.scriptPath_of_canonical (FileSystem.canonical_of_canonical hwf hp)
  have hnew : ∀ s ∈ added, (mid.loadedPaths.map env.files.scriptPath).any s.path.same = true := by
    intro s hs
    have hmem : env.files.scriptPath s.path ∈ mid.loadedPaths.map env.files.scriptPath :=
      List.mem_map_of_mem (List.mem_map_of_mem (hperm.mem_iff.2 (List.mem_append_left _ hs)))
    rw [hself s hs] at hmem
    exact List.any_eq_true.2 ⟨s.path, hmem, Path.same_iff.2 rfl⟩
  have hold : ∀ s ∈ rt.registry.loaded,
      (mid.loadedPaths.map env.files.scriptPath).any s.path.same = false := by
    intro s hs
    refine List.any_eq_false.2 fun q hq hsame => ?_
    obtain ⟨p, hp, rfl⟩ := List.mem_map.1 hq
    obtain ⟨other, hmem, rfl⟩ := List.mem_map.1 hp
    rcases List.mem_append.1 (hperm.mem_iff.1 hmem) with hother | hother
    · rw [hself other hother] at hsame
      have hloaded := Registry.isLoaded_eq_true_iff.2 ⟨s, hs, (Path.same_iff.1 hsame).symm⟩
      cases hloaded.symm.trans (hload.free other hother)
    · refine List.any_eq_false.1 (hreach s hs) _ ?_ hsame
      exact List.mem_map_of_mem (List.mem_map_of_mem hother)
  have htaken := Registry.take_enterEach h.apart hload.apart hload.free hold hnew
  rwa [← hmid] at htaken

/-- **What a batch has added is what is unloaded next**, whatever has been recorded meanwhile. -/
theorem cleared_load (hwf : env.files.WellFormed) {root : Path} {added : List (Script Handler)}
    (h : Numbered catalog rt) (hreach : OutOfReach env.files rt.registry)
    (hswept : rt.registry.Swept env.files root) (hs : rt.router.Serves served)
    (hload : Loading rt env paths added) (trace : List Occurrence) :
    Cleared rt ({ (rt.load env paths).1 with trace }.unloadAll env.files).1 env.files root served
      added := by
  generalize hmid : { (rt.load env paths).1 with trace } = mid
  have hregistry : mid.registry = rt.registry.enterEach added := hmid ▸ hload.registry
  obtain ⟨htaken, hleft⟩ := take_loading hwf h hreach hload hregistry
  have hcleared := registry_unloadScripts keepsAloof_handler mid env.files mid.registry.loadedPaths
  have hloaded : (mid.unloadAll env.files).1.registry.loaded = rt.registry.loaded := by
    rw [unloadAll, hcleared]
    exact hleft
  have hpaths : ∀ p, p ∈ (mid.registry.take (mid.registry.loadedPaths.map
      env.files.scriptPath)).1.map (·.path) ↔ ∃ s ∈ added, s.path = p := by
    intro p
    simp only [List.mem_map, htaken.mem_iff]
  have hdisabled : (mid.unloadAll env.files).1.registry.disabled
      = ((rt.registry.enterEach added).leaveMarkers ((mid.registry.take
        (mid.registry.loadedPaths.map env.files.scriptPath)).1.map (·.path))).disabled := by
    rw [unloadAll, hcleared, Registry.disabled_leaveMarkers, Registry.disabled_leaveMarkers,
      ← hregistry]
    rfl
  constructor
  case loaded => exact hloaded
  case disabled => exact ⟨_, hpaths, hdisabled⟩
  case swept =>
    exact Registry.swept_leaveMarkers hwf hswept hload.apart hload.free hload.resolved hpaths
      hloaded hdisabled
  case serves =>
    have hserved : mid.router.Serves (served ++ triggersOf added) := hmid ▸ hload.serves hs
    have hback := serves_unloadScripts owning_handler mid env.files mid.registry.loadedPaths hserved
    have hgone : (owned (fun h : Handler => some h.trigger) (mid.registry.take
        (mid.registry.loadedPaths.map env.files.scriptPath)).1).Perm (triggersOf added) := by
      rw [← owned_handlers]
      exact htaken.flatMap_right _
    rwa [withoutAll_back hserved.ids hgone] at hback
  case settled =>
    have hsettled : Settled rt mid := hmid ▸ ⟨hload.settled.workers, hload.settled.catalog⟩
    exact hsettled.trans (settled_unloadScripts mid env.files _)
  case issued =>
    have hissued : mid.issued = (rt.load env paths).1.issued := hmid ▸ rfl
    rw [unloadAll, issued_unloadScripts, hissued]
    exact hload.issued

/-! ## Loading it again -/

/-- The two runtimes have the same scripts loaded and disabled, and the same triggers bound in the
same places and the same order, but for the identities of the triggers. -/
structure Resembles (ids : TriggerId → TriggerId) (rt last : Runtime Handler) : Prop where
  injective : Function.Injective ids
  loaded : last.registry.loaded
    = rt.registry.loaded.map (Script.map (Handler.renamed ids))
  disabled : last.registry.disabled = rt.registry.disabled
  bound : ∀ c, last.router.bound c = (rt.router.bound c).map (Trigger.renamed ids)
  listening : ∀ c, last.router.isListening c = rt.router.isListening c

/-- What is older than all new identities keeps its own. -/
theorem Numbered.map_shifted (h : Numbered catalog rt) (count : Nat) :
    rt.registry.map (Handler.renamed (shifted rt.issued count)) = rt.registry := by
  refine Registry.map_of_kept _ fun script hscript handler hhandler => ?_
  have hid := h.below handler.trigger (mem_triggersOf.2 ⟨script, hscript, handler, hhandler, rfl⟩)
  simp only [Handler.renamed, Trigger.renamed, shifted_of_lt hid]

/-- A batch that is loaded again adds the same scripts, with higher identities. -/
theorem additions_shifted {env' : Surroundings Handler}
    (hblind : ∀ ids : TriggerId → TriggerId, ∀ hids : Function.Injective ids,
      env.grammar.Blind (Handler.renaming ids hids))
    (hu : env.scope.Untroubled) (hu' : env'.scope.Untroubled)
    (hgrammar : env'.grammar = env.grammar) (hfiles : env'.files = env.files)
    (hcatalog : last.router.catalog = rt.router.catalog)
    (hloaded : last.registry.loaded = rt.registry.loaded) {count : Nat}
    (hissued : last.issued = rt.issued + count) (paths : List Path) :
    last.additions env' paths = (rt.additions env paths).map
      (Script.map (Handler.renamed (shifted rt.issued count))) := by
  unfold additions
  rw [hfiles, Registry.violation?_congr hloaded]
  cases rt.registry.violation? [] (Batch.resolved env.files paths) with
  | some violation => rfl
  | none =>
    exact constructed_shifted hu hu' (hblind _ (shifted_injective _ _)) hgrammar hfiles hcatalog rfl
      hissued paths

/-- **A batch that is loaded again** comes to the same but for the identities. -/
theorem resembles_load {env' : Surroundings Handler} {root : Path} (hg : env.grammar.Faithful)
    (hblind : ∀ ids : TriggerId → TriggerId, ∀ hids : Function.Injective ids,
      env.grammar.Blind (Handler.renaming ids hids))
    (hu : env.scope.Untroubled) (hu' : env'.scope.Untroubled)
    (hgrammar : env'.grammar = env.grammar) (hfiles : env'.files = env.files)
    (h : Numbered catalog rt) (hlast : Numbered catalog last) (hs : rt.router.Serves served)
    (hbelow : ∀ t ∈ served, t.id < rt.issued)
    (hc : Cleared rt last env.files root served (rt.additions env paths)) :
    (last.load env' paths).2 = (rt.load env paths).2 ∧
      ∃ ids, Resembles ids (rt.load env paths).1 (last.load env' paths).1 := by
  obtain ⟨count, hcount⟩ := Nat.exists_eq_add_of_le hc.issued
  let ids := shifted rt.issued count
  have hkept : served = served.map (Trigger.renamed ids) := by
    refine (List.map_id' served).symm.trans (List.map_congr_left fun t ht => ?_)
    simp only [Trigger.renamed, ids, shifted_of_lt (hbelow t ht)]
  have hviolation : last.registry.violation? [] (Batch.resolved env'.files paths)
      = rt.registry.violation? [] (Batch.resolved env.files paths) := by
    rw [hfiles]
    exact Registry.violation?_congr hc.loaded _ _
  have hagain := additions_shifted hblind hu hu' hgrammar hfiles hc.settled.catalog hc.loaded hcount
    paths
  have hfirst := loading_additions hg hu h paths
  have hsecond := loading_additions (hgrammar ▸ hg) hu' hlast paths
  rw [hagain] at hsecond
  generalize rt.additions env paths = added at hc hfirst hsecond
  refine ⟨?_, ids, shifted_injective _ _, ?_, ?_, fun c => ?_, fun c => ?_⟩
  · rw [hsecond.result, hfirst.result, hviolation, tallies_map]
  · -- the scripts that were loaded before are not concerned
    rw [hsecond.registry, hfirst.registry, Registry.loaded_enterEach_congr _ hc.loaded]
    conv_lhs => rw [← h.map_shifted count, Registry.enterEach_map]
    rfl
  · obtain ⟨left, hleft, hdisabled⟩ := hc.disabled
    rw [hsecond.registry, hfirst.registry]
    refine Registry.disabled_again hfirst.apart hfirst.free hleft ?_ hc.loaded hdisabled
    rw [List.map_map]
    rfl
  -- what was served before keeps its identities, what has been added comes behind it
  all_goals
    have hcatalog : (last.load env' paths).1.router.catalog
        = (rt.load env paths).1.router.catalog :=
      hsecond.settled.catalog.trans (hc.settled.catalog.trans hfirst.settled.catalog.symm)
    have hserved := hfirst.serves hs
    have hserved' := hsecond.serves hc.serves
    rw [triggersOf_map, hkept, ← List.map_append] at hserved'
  · exact hserved.bound_renamed hserved' hcatalog c
  · exact hserved.isListening_renamed hserved' hcatalog c

/-! ## Directories -/

variable {env' : Surroundings Handler} {root : Path}

/-- A search of what has been searched only records what it finds. -/
theorem exists_scan_of_swept {σ : Type} {rt : Runtime σ} {files : FileSystem}
    (h : rt.registry.Swept files root) : ∃ os, (rt.scan files root).1 = rt.record os := by
  obtain ⟨os, -, hscan⟩ := exists_scan rt files root
  rw [Registry.rescan_of_swept h] at hscan
  exact ⟨os, by rw [hscan]⟩

section

variable {σ : Type} [Structure σ]

theorem activate_nil (rt : Runtime σ) : rt.activate [] = (rt, []) := by
  simp [activate, preLoad, preLoadMembers, Member.ofBatch, Member.byPriority, Member.toBatch,
    eachScript]

/-- A batch without files only leaves records. -/
theorem exists_load_nil {env : Surroundings σ} (hu : env.scope.Untroubled) (rt : Runtime σ) :
    ∃ os, rt.load env [] = (rt.record os, .ok {}) := by
  have hscripts := construct_untroubled hu (rt.record [.batchStarted 0]) []
  have hconstruct : ∃ os, ((rt.record [.batchStarted 0]).construct env []).1 = rt.record os := by
    simp only [construct, Construct.scripts]
    exact ⟨_, record_record rt _ _⟩
  obtain ⟨os, hos⟩ := hconstruct
  simp only [load, resolveAll, Registry.violation?, readAll, List.length_nil, hscripts, hos,
    finish_untroubled hu, Construct.compiled, List.map_nil, activate_nil, enterAll, record_record]
  exact ⟨_, rfl⟩

/-- **A directory that is not there** only leaves records, as long as nothing is marked. -/
theorem exists_loadDirectory_missing {env : Surroundings σ} (hu : env.scope.Untroubled)
    {rt : Runtime σ} (hmarkers : rt.registry.disabled = [])
    (hmissing : env.files.exists? root = false) :
    ∃ os, rt.loadDirectory env root = (rt.record os, .ok {}) := by
  have hfound : (discover env.files root).scripts = [] := by
    unfold discover
    cases hf : env.files.find root with
    | error e => rfl
    | ok at_ =>
      rw [FileSystem.exists?, hf] at hmissing
      cases hmissing
  obtain ⟨henabled, hdisabled⟩ := List.append_eq_nil_iff.1 hfound
  have hswept : rt.registry.Swept env.files root := by
    refine ⟨?_, ?_⟩
    · rw [hmarkers]
      nofun
    · rw [hdisabled]
      nofun
  obtain ⟨os, hscan⟩ := exists_scan_of_swept hswept
  rw [loadDirectory_eq, hscan, henabled]
  obtain ⟨more, hload⟩ := exists_load_nil hu (rt.record os)
  exact ⟨os ++ more, by rw [hload, record_record]⟩

end

/-- **A directory that is reloaded when it has just been loaded** comes to the same, whatever has
been recorded meanwhile. -/
theorem resembles_reloadDirectory (hwf : env.files.WellFormed) (hg : env.grammar.Faithful)
    (hblind : ∀ ids : TriggerId → TriggerId, ∀ hids : Function.Injective ids,
      env.grammar.Blind (Handler.renaming ids hids))
    (hu : env.scope.Untroubled) (hu' : env'.scope.Untroubled)
    (hgrammar : env'.grammar = env.grammar) (hfiles : env'.files = env.files)
    (h : Numbered catalog rt) (hreach : OutOfReach env.files rt.registry) (root : Path)
    (trace : List Occurrence) :
    ({ (rt.loadDirectory env root).1 with trace }.reloadDirectory env' root).2
        = (rt.loadDirectory env root).2 ∧
      ∃ ids, Resembles ids (rt.loadDirectory env root).1
        ({ (rt.loadDirectory env root).1 with trace }.reloadDirectory env' root).1 := by
  obtain ⟨count, hreload⟩ :=
    exists_reloadDirectory { (rt.loadDirectory env root).1 with trace } env' root
  have hnumbered : Numbered catalog { (rt.loadDirectory env root).1 with trace } :=
    (numbered_loadDirectory hg hu h root).congr rfl rfl rfl
  have hunloaded := numbered_unloadAll hnumbered env.files
  rw [hfiles] at hreload
  rw [hreload]
  -- the first search leaves the markers as the second finds them
  have hscanned := numbered_scan h env.files root
  have hswept : (rt.scan env.files root).1.registry.Swept env.files root := by
    rw [registry_scan]
    exact Registry.swept_rescan hwf rt.registry root
  have hreach' : OutOfReach env.files (rt.scan env.files root).1.registry :=
    hreach.congr (scan_spec env.files root rt).2
  obtain ⟨served, hs, hbelow⟩ := hscanned.exists_serves
  rw [loadDirectory_eq rt] at hunloaded ⊢
  have hcleared := cleared_load hwf hscanned hreach' hswept hs
    (loading_additions hg hu hscanned (discover env.files root).enabled) trace
  obtain ⟨os, hagain⟩ := exists_scan_of_swept hcleared.swept
  rw [loadDirectory_eq, hfiles, hagain]
  obtain ⟨hresult, ids, hresembles⟩ := resembles_load hg hblind hu hu' hgrammar hfiles hscanned
    (hunloaded.record os) hs hbelow (hcleared.record os)
  exact ⟨hresult, ids, hresembles.injective, hresembles.loaded, hresembles.disabled,
    hresembles.bound, hresembles.listening⟩

end Runtime

end EventScripts
