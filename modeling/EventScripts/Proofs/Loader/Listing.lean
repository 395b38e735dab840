import EventScripts.Proofs.Discovery.Unlinked
import EventScripts.Proofs.Loader.Bookkeeping
import EventScripts.Proofs.Loader.Directory
/-!
# The order in which scripts are listed

A search finds scripts in the order of their keys, which is the order in which a
registry lists them. Without links the files that they lead to are in that order
too, so a batch of what has been found names no file twice, and is activated in
the order in which its scripts are listed when it has been loaded.
-/

namespace EventScripts

namespace Registry

variable {σ α : Type}

/-- What belongs to scripts comes as they are listed: what belongs to the first of them, then what
belongs to the second, and so on. -/
def Lists (registry : Registry σ) (place : α → Path) (xs : List α) : Prop :=
  xs = registry.loadedPaths.flatMap fun path => xs.filter fun x => (place x).same path

theorem lists_of_sorted {registry : Registry σ} {place : α → Path} {xs : List α}
    (hs : InKeyOrder registry.loaded)
    (horder : xs.Pairwise fun a b => Path.keyCompare (place a) (place b) ≠ .gt)
    (hloaded : ∀ x ∈ xs, registry.isLoaded (place x) = true) : registry.Lists place xs := by
  have hpaths : Ordered.Sorted Path.keyCompare registry.loadedPaths := List.pairwise_map.2 hs
  have hmem : ∀ x ∈ xs,
      Ordered.contains Path.keyCompare (place x) registry.loadedPaths = true := by
    intro x hx
    obtain ⟨s, hs, hpath⟩ := isLoaded_eq_true_iff.1 (hloaded x hx)
    exact Ordered.contains_eq_true_iff.2
      ⟨s.path, List.mem_map_of_mem hs, Path.keyCompare_eq_iff.2 hpath⟩
  have hsame : ∀ a b : Path, (Path.keyCompare a b == .eq) = a.same b := fun a b => by
    rw [Bool.eq_iff_iff, beq_iff_eq, Path.keyCompare_eq_iff, Path.same_iff]
  have h := Ordered.eq_flatMap_filter hpaths horder hmem
  simp only [hsame] at h
  exact h

end Registry

/-! ## Members and their scripts -/

section

variable {σ : Type} {scripts : List (Script σ)}

/-- Members in order are members of scripts in order. -/
theorem Member.Precedes.keyCompare_ne {a b : Member σ} (h : a.Precedes b)
    (hs : Registry.InKeyOrder scripts) (ha : a.BelongsTo scripts) (hb : b.BelongsTo scripts) :
    Path.keyCompare a.path b.path ≠ .gt := by
  obtain ⟨s, hget, hpath⟩ := ha
  obtain ⟨t, hget', hpath'⟩ := hb
  rw [hpath, hpath']
  rcases h with hlt | ⟨heq, -⟩
  · obtain ⟨hi, rfl⟩ := List.getElem?_eq_some_iff.1 hget
    obtain ⟨hj, rfl⟩ := List.getElem?_eq_some_iff.1 hget'
    have hkey : Path.keyCompare scripts[a.script].path scripts[b.script].path = .lt :=
      List.pairwise_iff_getElem.1 hs _ _ hi hj hlt
    rw [hkey]
    nofun
  · rw [heq, hget'] at hget
    cases hget
    rw [Path.keyCompare_eq_iff.2 rfl]
    nofun

/-- **Calls in the order of a batch** come as its scripts are listed, if those are in the order of
their keys. -/
theorem Registry.lists_calls {registry : Registry σ} {calls : List (Call σ)}
    (hlisted : InKeyOrder registry.loaded) (hkeys : InKeyOrder scripts)
    (hloaded : ∀ s ∈ scripts, registry.isLoaded s.path = true)
    (horder : (calls.map Call.member).Pairwise Member.Precedes)
    (hbelongs : ∀ m ∈ calls.map Call.member, m.BelongsTo scripts) :
    registry.Lists (fun c : Call σ => c.member.path) calls := by
  refine lists_of_sorted hlisted ?_ fun c hc => ?_
  · refine (List.pairwise_map.1 horder).imp_of_mem fun {a b} ha hb hab => ?_
    exact hab.keyCompare_ne hkeys (hbelongs _ (List.mem_map_of_mem ha))
      (hbelongs _ (List.mem_map_of_mem hb))
  · obtain ⟨s, hget, hpath⟩ := hbelongs _ (List.mem_map_of_mem hc)
    rw [hpath]
    exact hloaded s (List.mem_of_getElem? hget)

variable [Structure σ] {rt : Runtime σ} {pre load post : List (Call σ)}

theorem Activation.pre_belongsTo (h : Activation rt scripts pre load post) :
    ∀ m ∈ pre.map Call.member, m.BelongsTo scripts := fun _ hm =>
  Member.belongsTo_of_mem_ofBatch (h.pre_members.subset hm)

theorem Activation.load_belongsTo (h : Activation rt scripts pre load post) :
    ∀ m ∈ load.map Call.member, m.BelongsTo scripts := fun m hm =>
  Call.belongsTo_staying h.pre_belongsTo m (h.load_members.subset hm)

theorem Activation.post_belongsTo (h : Activation rt scripts pre load post) :
    ∀ m ∈ post.map Call.member, m.BelongsTo scripts := by
  rw [h.post_members]
  exact Call.belongsTo_staying h.load_belongsTo

/-- Calls of one priority are in the order of the batch. -/
theorem Activation.pre_precedes (h : Activation rt scripts pre load post) (priority : Int) :
    ((pre.filter fun c => Structure.priority c.member.self == priority).map
      Call.member).Pairwise Member.Precedes := by
  have hfiltered := (List.pairwise_map.1 h.pre_order).filter
    fun c : Call σ => Structure.priority c.member.self == priority
  refine List.pairwise_map.2 (hfiltered.imp_of_mem fun {a b} ha hb hab => ?_)
  have hpa := (List.mem_filter.1 ha).2
  have hpb := (List.mem_filter.1 hb).2
  rw [beq_iff_eq] at hpa hpb
  rcases hab with hlt | ⟨-, hprecedes⟩
  · omega
  · exact hprecedes

theorem Activation.post_precedes (h : Activation rt scripts pre load post) :
    (post.map Call.member).Pairwise Member.Precedes := by
  rw [h.post_members]
  exact Call.pairwise_staying h.load_order

end

namespace Runtime

variable {σ : Type}

/-! ## Batches that come in order -/

section

variable [Structure σ] {rt : Runtime σ} {env : Surroundings σ} {paths : List Path}

/-- A batch that runs is activated and then entered. -/
theorem completed_of_runs (h : rt.Runs env paths) :
    Completed ((rt.starting env paths).activate (rt.constructed env paths).2.1).1
      ((rt.starting env paths).activate (rt.constructed env paths).2.1).2 (rt.load env paths).1 := by
  obtain ⟨tally, hok⟩ := (load_ok_iff rt env paths).2 h
  obtain ⟨built, hbuilt, hprepared⟩ := exists_prepared rt env paths
  have hapart := (hprepared.paths h.admitted).1
  rw [← hbuilt] at hapart
  rw [load_of_admitted h.admitted] at hok ⊢
  rcases finish_cases (rt.constructed env paths).1 env.scope (rt.constructed env paths).2.1
    (rt.constructed env paths).2.2 hapart with ⟨e, hl⟩ | ⟨text, -, -, hl⟩ | ⟨-, -, hcompleted⟩
  · rw [hl] at hok
    cases hok
  · rw [hl] at hok
    cases hok
  · exact hcompleted

/-- Scripts have been activated as they are listed afterwards, by calls for each of the phases. -/
structure ActivatedAsListed (rt last : Runtime σ) (batch : List (Script σ))
    (pre load post : List (Call σ)) : Prop where
  activation : ∃ start, Activation start batch pre load post
  /-- There have been no other calls. -/
  calls : Occurrence.calls last.trace
    = Occurrence.calls rt.trace ++ (Call.journal pre load post).map Call.line
  scripts : last.registry.Lists Script.path batch
  /-- If structures keep out of the registry, no other scripts are listed. -/
  only : KeepsAloof σ → last.registry.loadedPaths = batch.map (·.path)
  /-- The first phase goes by priority, and only then by the list. -/
  preLoad : ∀ priority, last.registry.Lists (fun c : Call σ => c.member.path)
    (pre.filter fun c => Structure.priority c.member.self == priority)
  load : last.registry.Lists (fun c : Call σ => c.member.path) load
  postLoad : last.registry.Lists (fun c : Call σ => c.member.path) post

/-- **A batch whose files come in order** is activated as its scripts are listed afterwards, if
nothing has been loaded before. -/
theorem exists_activatedAsListed (h : rt.Runs env paths) (hempty : rt.registry.loaded = [])
    (hs : Ordered.Sorted Path.keyCompare (Batch.resolved env.files paths)) :
    ∃ pre load post, ActivatedAsListed rt (rt.load env paths).1 (rt.constructed env paths).2.1
      pre load post := by
  obtain ⟨built, hbuilt, hprepared⟩ := exists_prepared rt env paths
  have hsub := hprepared.sublist
  rw [← hbuilt] at hsub
  have hpaths := hs.sublist hsub
  have hcompleted := completed_of_runs h
  generalize (rt.constructed env paths).2.1 = batch at hpaths hcompleted
  have hkeys : Registry.InKeyOrder batch := List.pairwise_map.1 hpaths
  obtain ⟨pre, load, post, hact⟩ := exists_activation (rt.starting env paths) batch
  have hkept : Registry.InKeyOrder ((rt.starting env paths).activate batch).2 := by
    rw [← hact.paths] at hpaths
    exact List.pairwise_map.1 hpaths
  -- whatever structures have entered, the list is in order, and the batch is in it
  obtain ⟨entered, hentered⟩ := entered_load rt env paths
  have hlisted := Registry.inKeyOrder_enterEach hempty entered
  rw [← hentered] at hlisted
  have hloaded : ∀ s ∈ batch, (rt.load env paths).1.registry.isLoaded s.path = true := by
    intro s hs
    have hmem : s.path ∈ ((rt.starting env paths).activate batch).2.map (·.path) :=
      hact.paths ▸ List.mem_map_of_mem hs
    obtain ⟨s', hs', hpath⟩ := List.mem_map.1 hmem
    rw [hcompleted.registry, ← hpath]
    exact Registry.isLoaded_enterEach hkept.apart hs'
  refine ⟨pre, load, post, ?_⟩
  constructor
  case activation => exact ⟨_, hact⟩
  case calls =>
    obtain ⟨closed, hshows⟩ := hcompleted.shows
    rw [((Call.shows_linked hact.linked).trans hshows).calls, hprepared.calls, List.append_nil]
  case scripts =>
    refine Registry.lists_of_sorted hlisted (hkeys.imp fun {a b} hlt => ?_) hloaded
    have hkey : Path.keyCompare a.path b.path = .lt := hlt
    rw [hkey]
    nofun
  case only =>
    intro ha
    have hfresh : ((rt.starting env paths).activate batch).1.registry.loaded = [] := by
      rw [registry_linked ha hact.linked, registry_starting]
      exact hempty
    have hsame := Registry.loaded_enterEach_of_sorted hfresh hkept
    rw [← hcompleted.registry] at hsame
    rw [Registry.loadedPaths, hsame, hact.paths]
  case preLoad =>
    intro priority
    refine Registry.lists_calls hlisted hkeys hloaded (hact.pre_precedes priority) fun m hm => ?_
    exact hact.pre_belongsTo m ((List.filter_sublist.map _).subset hm)
  case load => exact Registry.lists_calls hlisted hkeys hloaded hact.load_order hact.load_belongsTo
  case postLoad =>
    exact Registry.lists_calls hlisted hkeys hloaded hact.post_precedes hact.post_belongsTo

end

/-! ## Directories without links -/

section

variable {files : FileSystem} {root : Path}

/-- Without links what is found leads to files that come in the same order. -/
theorem pairwise_canonical (hproper : files.ProperNames) (hl : files.Linkless)
    (h : files.isDirectory root = true) : (discover files root).enabled.Pairwise fun p q =>
      ∀ a b, files.canonical p = .ok a → files.canonical q = .ok b → Path.keyCompare a b = .lt := by
  have hfound := Discovery.complete_discover hproper h
  refine hfound.enabled_sorted.imp_of_mem fun {p q} hp hq hlt a b ha hb => ?_
  rw [Discovery.keyCompare_of_resolved hproper hl h ((hfound.enabled_iff p).1 hp)
    ((hfound.enabled_iff q).1 hq) ha hb]
  exact hlt

theorem leadApart_discover (hproper : files.ProperNames) (hl : files.Linkless)
    (h : files.isDirectory root = true) : files.LeadApart (discover files root).enabled := by
  refine (pairwise_canonical hproper hl h).imp fun {p q} hpq a b ha hb => ?_
  rw [← Bool.not_eq_true, Path.same_iff, ← Path.keyCompare_eq_iff, hpq a b ha hb]
  nofun

theorem sorted_resolved (hproper : files.ProperNames) (hl : files.Linkless)
    (h : files.isDirectory root = true) :
    Ordered.Sorted Path.keyCompare (Batch.resolved files (discover files root).enabled) := by
  have hok : ∀ {p a : Path}, (files.canonical p).toOption = some a → files.canonical p = .ok a := by
    intro p a ha
    cases hp : files.canonical p with
    | ok b =>
      rw [hp] at ha
      cases ha
      rfl
    | error e =>
      rw [hp] at ha
      cases ha
  refine List.pairwise_filterMap.2 ((pairwise_canonical hproper hl h).imp ?_)
  exact fun hpq a ha b hb => hpq a b (hok ha) (hok hb)

/-- A search calls nothing. -/
theorem calls_scan (rt : Runtime σ) (files : FileSystem) (root : Path) :
    Occurrence.calls (rt.scan files root).1.trace = Occurrence.calls rt.trace := by
  obtain ⟨os, hos, hscan⟩ := exists_scan rt files root
  have hnone : Occurrence.calls os = [] := by
    refine Occurrence.filterMap_ofSearch hos fun o ho => ?_
    cases o <;> first | rfl | cases ho
  rw [hscan]
  refine (Occurrence.calls_append _ _).trans ?_
  rw [hnone, List.append_nil]

end

variable [Structure σ]

/-- What comes of loading a directory without links when nothing has been loaded. -/
structure DirectoryListing (rt : Runtime σ) (env : Surroundings σ) (root : Path) : Prop where
  /-- In a scope that never fails it comes to a good end. -/
  loads : env.scope.Untroubled → ∃ tally, (rt.loadDirectory env root).2 = .ok tally
  /-- If it does, scripts have been activated as they are listed. -/
  listed : ∀ tally, (rt.loadDirectory env root).2 = .ok tally → ∃ batch pre load post,
    ActivatedAsListed rt (rt.loadDirectory env root).1 batch pre load post ∧
    (env.scope.Untroubled → batch.map (·.path) = (Batch.trees env.files
      (Batch.resolved env.files (discover env.files root).enabled)).map (·.path))

/-- **Searching a directory and loading what is found**: the search is complete, and without links
the scripts are activated in the order in which they are listed. -/
theorem listing_loadDirectory (rt : Runtime σ) (env : Surroundings σ) (root : Path)
    (hproper : env.files.ProperNames) (h : env.files.isDirectory root = true) :
    Discovery.Complete env.files root (discover env.files root) ∧
      (env.files.Linkless → rt.registry.loaded = [] → DirectoryListing rt env root) := by
  refine ⟨Discovery.complete_discover hproper h, fun hl hempty => ?_⟩
  have hscanned : (rt.scan env.files root).1.registry.loaded = [] :=
    (scan_spec env.files root rt).2.trans hempty
  constructor
  case loads =>
    intro hs
    refine (load_ok_iff (rt.scan env.files root).1 env (discover env.files root).enabled).2 ?_
    rw [runs_iff hs, ← Option.not_isSome_iff_eq_none, Registry.violation?_iff_clash,
      clash_iff_of_empty hscanned, not_not]
    exact leadApart_discover hproper hl h
  case listed =>
    intro tally hok
    have hruns := (load_ok_iff (rt.scan env.files root).1 env
      (discover env.files root).enabled).1 ⟨tally, hok⟩
    obtain ⟨pre, load, post, hlisted⟩ :=
      exists_activatedAsListed hruns hscanned (sorted_resolved hproper hl h)
    refine ⟨((rt.scan env.files root).1.constructed env (discover env.files root).enabled).2.1,
      pre, load, post, ?_, fun hs => paths_constructed hs _ _⟩
    have hcalls := hlisted.calls
    rw [calls_scan] at hcalls
    exact { hlisted with calls := hcalls }

/-- Scripts above and below each other, one of them disabled. -/
def nested : FileSystem :=
  { entries := [(["b.sk"], .file (.text "")), (["a"], .directory), (["a", "-d.sk"], .file (.text "")),
      (["a", "c.sk"], .file (.text ""))] }

/-- There are no links among nested scripts, and they are loaded. -/
theorem listing_nested :
    nested.ProperNames ∧ nested.isDirectory ⟨"/"⟩ = true ∧ nested.Linkless ∧
      newLoader.registry.loaded = [] ∧
      Discovery.Complete nested ⟨"/"⟩ (discover nested ⟨"/"⟩) ∧
      DirectoryListing newLoader ⟨Demo.grammar, nested, {}, []⟩ ⟨"/"⟩ ∧
      ∃ tally, (newLoader.loadDirectory ⟨Demo.grammar, nested, {}, []⟩ ⟨"/"⟩).2 = .ok tally := by
  have hproper : nested.ProperNames := by
    simp only [FileSystem.ProperNames, nested, List.forall_mem_cons]
    have ha : Path.Proper "a" := ⟨by cbv, by simp [Path.NoSlash, Path.isSlash]⟩
    have hb : Path.Proper "b.sk" := ⟨by cbv, by simp [Path.NoSlash, Path.isSlash]⟩
    have hc : Path.Proper "c.sk" := ⟨by cbv, by simp [Path.NoSlash, Path.isSlash]⟩
    have hd : Path.Proper "-d.sk" := ⟨by cbv, by simp [Path.NoSlash, Path.isSlash]⟩
    simp [ha, hb, hc, hd]
  have hroot : nested.isDirectory ⟨"/"⟩ = true := by cbv
  have hl : nested.Linkless := by
    simp [FileSystem.Linkless, nested]
  obtain ⟨hfound, hlisting⟩ :=
    listing_loadDirectory newLoader ⟨Demo.grammar, nested, {}, []⟩ ⟨"/"⟩ hproper hroot
  have hload := hlisting hl rfl
  exact ⟨hproper, hroot, hl, rfl, hfound, hload, hload.loads ⟨fun _ => rfl, fun _ => rfl⟩⟩

end Runtime

end EventScripts
