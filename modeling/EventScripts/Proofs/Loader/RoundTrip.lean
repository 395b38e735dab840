import EventScripts.Proofs.Loader.Undisturbed
import EventScripts.Proofs.Loader.UnloadAll
import EventScripts.Proofs.Registry.Undo
/-!
# There and back again

A batch that is loaded and then unloaded, by the same paths and in the same
files, leaves everything as it was but for the markers of its scripts.
`exists_roundTrip` says so of one round, from any state in which the router
serves some triggers and no input leads to a loaded script; the structures are
to own triggers and to keep out of the registry.

What has been entered may lie anywhere among the scripts that were loaded
before, but what it has bound comes behind everything in the router. That is why
nothing that was there before loses its place.
-/

namespace EventScripts

variable {σ : Type}

/-- The triggers but some. -/
def withoutAll (gone ts : List Trigger) : List Trigger :=
  ts.filter fun t => gone.all fun g => t.id != g.id

theorem withoutAll_append (gone more ts : List Trigger) :
    withoutAll (gone ++ more) ts = withoutAll more (withoutAll gone ts) := by
  simp only [withoutAll, List.filter_filter, List.all_append, Bool.and_comm]

theorem withoutAll_toList (gone : Option Trigger) (ts : List Trigger) :
    withoutAll gone.toList ts = without gone ts := by
  cases gone <;> simp [withoutAll, without]

/-- Triggers that come behind others are taken out from there, in whichever order. -/
theorem withoutAll_back {ts back gone : List Trigger} (hids : ((ts ++ back).map (·.id)).Nodup)
    (h : gone.Perm back) : withoutAll gone (ts ++ back) = ts := by
  rw [List.map_append, List.nodup_append] at hids
  obtain ⟨-, -, hne⟩ := hids
  have hts : ts.filter (fun t => gone.all fun g => t.id != g.id) = ts := by
    refine List.filter_eq_self.2 fun t ht => List.all_eq_true.2 fun g hg => ?_
    have hid := hne _ (List.mem_map_of_mem ht) _ (List.mem_map_of_mem (h.mem_iff.1 hg))
    simpa using hid
  have hback : back.filter (fun t => gone.all fun g => t.id != g.id) = [] := by
    refine List.filter_eq_nil_iff.2 fun t ht hall => ?_
    have hid := List.all_eq_true.1 hall t (h.mem_iff.2 ht)
    simp at hid
  rw [withoutAll, List.filter_append, hts, hback, List.append_nil]

section Naming

variable {files : FileSystem} {paths : List Path}

/-- What a batch resolves is named by its inputs again. -/
theorem any_same_of_resolved {path : Path} (h : path ∈ Batch.resolved files paths) :
    (paths.map files.scriptPath).any path.same = true := by
  obtain ⟨p, hp, hcanonical⟩ := List.mem_filterMap.1 h
  cases hc : files.canonical p with
  | ok resolved =>
    rw [hc] at hcanonical
    obtain rfl : resolved = path := Option.some.inj hcanonical
    refine List.any_eq_true.2 ⟨files.scriptPath p, List.mem_map_of_mem hp, ?_⟩
    rw [FileSystem.scriptPath_of_canonical hc]
    exact Path.same_iff.2 rfl
  | error e =>
    rw [hc] at hcanonical
    cases hcanonical

/-- What is loaded is not named by inputs that do not lead to it. -/
theorem any_same_of_free {registry : Registry σ}
    (h : ∀ p ∈ paths, registry.isLoaded (files.scriptPath p) = false) :
    ∀ s ∈ registry.loaded, (paths.map files.scriptPath).any s.path.same = false := by
  intro s hs
  refine List.any_eq_false.2 fun q hq hsame => ?_
  obtain ⟨p, hp, rfl⟩ := List.mem_map.1 hq
  have hloaded := Registry.isLoaded_eq_true_iff.2 ⟨s, hs, (Path.same_iff.1 hsame).symm⟩
  cases hloaded.symm.trans (h p hp)

end Naming

namespace Runtime

/-- Neither the number of workers nor the catalog ever changes. -/
structure Settled (rt last : Runtime σ) : Prop where
  workers : last.workers = rt.workers
  catalog : last.router.catalog = rt.router.catalog

theorem Settled.trans {rt mid last : Runtime σ} (h : Settled rt mid) (h' : Settled mid last) :
    Settled rt last := ⟨h'.workers.trans h.workers, h'.catalog.trans h.catalog⟩

theorem kept_settled (rt : Runtime σ) : Kept (Settled rt) where
  record _ _ _ _ h := ⟨h.workers, h.catalog⟩
  bind mid trigger h := by
    refine ⟨?_, (kept_catalog _).bind mid trigger h.catalog⟩
    unfold bind
    split <;> exact h.workers
  release _ _ h := ⟨h.workers, h.catalog⟩
  enter mid script h := by
    refine ⟨?_, (kept_catalog _).enter mid script h.catalog⟩
    unfold enter
    split <;> exact h.workers

/-- Scripts whose paths are free are all counted. -/
theorem tally_enterAll : ∀ {scripts : List (Script σ)} {rt : Runtime σ}, Registry.Apart scripts →
    (∀ s ∈ scripts, rt.registry.isLoaded s.path = false) →
    (rt.enterAll scripts).2 = Tally.sum (scripts.map Script.tally)
  | [], _, _, _ => rfl
  | script :: rest, rt, ha, hfree => by
    obtain ⟨hapart, hrest⟩ := List.pairwise_cons.1 ha
    obtain ⟨registry, hi⟩ : ∃ registry, rt.registry.insert script = .ok registry :=
      ⟨_, Registry.insert_of_not_loaded (hfree script List.mem_cons_self)⟩
    have hfree' : ∀ s ∈ rest, registry.isLoaded s.path = false := by
      intro s hs
      rw [Registry.isLoaded_of_insert hi (hapart s hs)]
      exact hfree s (List.mem_cons_of_mem _ hs)
    have htally : ((({ rt with registry }.record [.entered script.path]).record
        [.scriptLoaded script.path script.structures.length]).enterAll rest).2
          = Tally.sum (rest.map Script.tally) := tally_enterAll hrest hfree'
    simp only [enterAll, enter, hi]
    rw [htally, List.map_cons, Tally.sum_cons]

variable [Structure σ] {own : σ → Option Trigger} {rt : Runtime σ} {env : Surroundings σ}
  {paths : List Path}

/-! ## Unloading and the router -/

theorem serves_callAll_withoutAll (ho : Owning own) (path : Path) : ∀ (structures : List σ)
    {rt : Runtime σ} {ts : List Trigger}, rt.router.Serves ts →
    (rt.callAll .unload path structures).1.router.Serves
      (withoutAll (structures.filterMap own) ts)
  | [], _, ts, hs => by
    simpa [callAll, withoutAll] using hs
  | self :: structures, rt, ts, hs => by
    have hu := (Call.owning_unload ho ⟨.unload, ⟨0, 0, path, self⟩, rt⟩ rfl hs).2
    have hrest := serves_callAll_withoutAll ho path structures hu
    have hown : (self :: structures).filterMap own
        = (own self).toList ++ structures.filterMap own := by
      rw [List.filterMap_cons]
      cases own self <;> rfl
    rw [hown, withoutAll_append, withoutAll_toList]
    exact hrest

/-- Unloading takes out exactly what the structures own, and leaves the rest in its order. -/
theorem serves_unloadPass_withoutAll (ho : Owning own) : ∀ (scripts : List (Script σ))
    {rt : Runtime σ} {ts : List Trigger}, rt.router.Serves ts →
    (rt.unloadPass scripts).1.router.Serves (withoutAll (owned own scripts) ts)
  | [], _, ts, hs => by
    simpa [unloadPass, owned, withoutAll] using hs
  | script :: scripts, _, ts, hs => by
    have hfirst := serves_callAll_withoutAll ho script.path script.structures hs
    rw [owned, List.flatMap_cons, withoutAll_append]
    exact serves_unloadPass_withoutAll ho scripts hfirst

/-! ## What a batch enters -/

/-- The scripts that have been constructed, with the structures that have stayed. -/
structure Selected (rt : Runtime σ) (env : Surroundings σ) (paths : List Path)
    (scripts : List (Script σ)) : Prop where
  constructed : scripts.map (·.path) = (rt.constructed env paths).2.1.map (·.path)
  resolved : ∀ s ∈ scripts, s.path ∈ Batch.resolved env.files paths
  apart : Registry.Apart scripts
  free : ∀ s ∈ scripts, rt.registry.isLoaded s.path = false

theorem selected_of_admitted
    (h : rt.registry.violation? [] (Batch.resolved env.files paths) = none) :
    Selected rt env paths
      ((rt.starting env paths).activate (rt.constructed env paths).2.1).2 := by
  obtain ⟨built, hbuilt, hprepared⟩ := exists_prepared rt env paths
  obtain ⟨hapart, hfree⟩ := hprepared.paths h
  have hsub := hprepared.sublist
  rw [← hbuilt] at hapart hfree hsub
  obtain ⟨pre, load, post, hact⟩ :=
    exists_activation (rt.starting env paths) (rt.constructed env paths).2.1
  -- what is left of a script has its path
  have hpath : ∀ s ∈ ((rt.starting env paths).activate (rt.constructed env paths).2.1).2,
      ∃ s' ∈ (rt.constructed env paths).2.1, s'.path = s.path := by
    intro s hs
    have hmem := List.mem_map_of_mem (f := Script.path) hs
    rw [hact.paths] at hmem
    exact List.mem_map.1 hmem
  constructor
  case constructed => exact hact.paths
  case resolved =>
    intro s hs
    obtain ⟨s', hs', hp⟩ := hpath s hs
    exact hp ▸ hsub.subset (List.mem_map_of_mem hs')
  case apart => exact hact.apart hapart
  case free =>
    intro s hs
    obtain ⟨s', hs', hp⟩ := hpath s hs
    exact hp ▸ hfree s' hs'

/-- The runtime when a batch has been activated, and what is left of its scripts. -/
structure Activated (rt mid : Runtime σ) (scripts : List (Script σ)) : Prop where
  registry : mid.registry = rt.registry
  settled : Settled rt mid
  /-- The router serves what it did before, and behind that what the scripts own. -/
  serves : ∀ {own : σ → Option Trigger}, Owning own → ∀ {ts}, rt.router.Serves ts →
    mid.router.Serves (ts ++ owned own scripts)

theorem activated_starting (ha : KeepsAloof σ) (rt : Runtime σ) (env : Surroundings σ)
    (paths : List Path) : Activated rt
      ((rt.starting env paths).activate (rt.constructed env paths).2.1).1
      ((rt.starting env paths).activate (rt.constructed env paths).2.1).2 := by
  obtain ⟨pre, load, post, hact⟩ :=
    exists_activation (rt.starting env paths) (rt.constructed env paths).2.1
  constructor
  case registry => exact (registry_linked ha hact.linked).trans (registry_starting rt env paths)
  case settled => exact Call.kept_linked (kept_settled rt) hact.linked ⟨rfl, rfl⟩
  case serves =>
    intro own ho ts hs
    rw [owned_of_grouped hact.grouped]
    exact hact.serves ho hs

/-- A batch that runs is activated and entered. -/
theorem load_of_runs (h : rt.Runs env paths) {activated : Runtime σ × List (Script σ)}
    (hact : (rt.starting env paths).activate (rt.constructed env paths).2.1 = activated) :
    ∃ os, rt.load env paths
      = (((activated.1.record os).enterAll activated.2).1.record
          [.batchLoaded ((activated.1.record os).enterAll activated.2).2],
        .ok ((activated.1.record os).enterAll activated.2).2) := by
  subst hact
  have hopens : env.scope.opening (rt.constructed env paths).2.2.opened = .ok () := h.opens
  have hcloses : ∀ text, env.scope.closing (rt.constructed env paths).2.2.closed
      ≠ .error (.panic text) := h.closes
  rw [load_of_admitted h.admitted]
  simp only [finish, Scope.openOnce, Scope.closeOnce, hopens]
  cases hclosing : env.scope.closing (rt.constructed env paths).2.2.closed with
  | ok _ => exact ⟨[.scopeClosed], rfl⟩
  | error fault =>
    cases fault with
    | panic text => exact absurd hclosing (hcloses text)
    | failure message =>
      simp only [report, record_record]
      exact ⟨_, rfl⟩

/-- What has been entered when a batch that runs has been loaded. -/
structure Entering (rt : Runtime σ) (env : Surroundings σ) (paths : List Path)
    (entered : List (Script σ)) : Prop extends Selected rt env paths entered where
  registry : (rt.load env paths).1.registry = rt.registry.enterEach entered
  tally : (rt.load env paths).2 = .ok (Tally.sum (entered.map Script.tally))
  settled : Settled rt (rt.load env paths).1
  serves : ∀ {own : σ → Option Trigger}, Owning own → ∀ {ts}, rt.router.Serves ts →
    (rt.load env paths).1.router.Serves (ts ++ owned own entered)

/-- What is left of the scripts when they have been activated is what is entered. -/
theorem entering_of_runs (ha : KeepsAloof σ) (h : rt.Runs env paths) : Entering rt env paths
    ((rt.starting env paths).activate (rt.constructed env paths).2.1).2 := by
  obtain ⟨os, hload⟩ := load_of_runs h rfl
  have hselected := selected_of_admitted h.admitted
  have hact := activated_starting ha rt env paths
  generalize (rt.starting env paths).activate (rt.constructed env paths).2.1 = activated
    at hload hselected hact
  obtain ⟨henter, hrouter, -⟩ := enterAll_spec activated.2 (activated.1.record os) hselected.apart
  refine ⟨hselected, ?_, ?_, ?_, fun ho _ hs => ?_⟩
  · rw [hload]
    exact henter.trans (congrArg (Registry.enterEach · activated.2) hact.registry)
  · rw [hload]
    refine congrArg Except.ok (tally_enterAll hselected.apart fun s hs => ?_)
    show activated.1.registry.isLoaded s.path = false
    rw [hact.registry]
    exact hselected.free s hs
  · rw [hload]
    obtain ⟨hworkers, hcatalog⟩ := (kept_settled (activated.1.record os)).enterAll activated.2 ⟨rfl, rfl⟩
    exact ⟨hworkers.trans hact.settled.workers, hcatalog.trans hact.settled.catalog⟩
  · rw [hload]
    show (enterAll _ _).1.router.Serves _
    rw [hrouter]
    exact hact.serves ho hs

theorem exists_entering (ha : KeepsAloof σ) (h : rt.Runs env paths) :
    ∃ entered, Entering rt env paths entered := ⟨_, entering_of_runs ha h⟩

/-! ## What unloading leaves -/

/-- What unloading does among structures that keep out of the registry. -/
theorem registry_unloadScripts (ha : KeepsAloof σ) (rt : Runtime σ) (files : FileSystem)
    (paths : List Path) : (rt.unloadScripts files paths).1.registry
      = (rt.registry.take (paths.map files.scriptPath)).2.leaveMarkers
        ((rt.registry.take (paths.map files.scriptPath)).1.map (·.path)) := by
  obtain ⟨total, hunload⟩ := exists_unloadScripts rt files paths
  rw [hunload]
  show (Registry.leaveMarkers (postUnloadPass _ _).registry _) = _
  rw [registry_postUnloadPass ha, registry_unloadPass ha, map_path_unloadPass]
  rfl

theorem serves_unloadScripts (ho : Owning own) (rt : Runtime σ) (files : FileSystem)
    (paths : List Path) {ts : List Trigger} (hs : rt.router.Serves ts) :
    (rt.unloadScripts files paths).1.router.Serves (withoutAll
      (owned own (rt.registry.take (paths.map files.scriptPath)).1) ts) := by
  obtain ⟨total, hunload⟩ := exists_unloadScripts rt files paths
  rw [hunload]
  show (postUnloadPass _ _).router.Serves _
  rw [router_postUnloadPass ho]
  exact serves_unloadPass_withoutAll ho _ hs

theorem settled_unloadScripts (rt : Runtime σ) (files : FileSystem) (paths : List Path) :
    Settled rt (rt.unloadScripts files paths).1 := by
  obtain ⟨total, hunload⟩ := exists_unloadScripts rt files paths
  obtain ⟨hworkers, hcatalog⟩ := (kept_settled rt).unload
    (fun _ _ h => ⟨h.workers, h.catalog⟩) (paths.map files.scriptPath) ⟨rfl, rfl⟩
  rw [hunload]
  exact ⟨hworkers, hcatalog⟩

/-! ## Rounds -/

/-- A round: a batch is loaded, and unloaded by the same paths. -/
def round (rt : Runtime σ) (env : Surroundings σ) (paths : List Path) : Runtime σ :=
  ((rt.load env paths).1.unloadScripts env.files paths).1

/-- What a round comes to, if `ts` are the triggers served and `entered` what is loaded. -/
structure RoundTrip (rt : Runtime σ) (env : Surroundings σ) (paths : List Path)
    (ts : List Trigger) (entered : List (Script σ)) : Prop where
  constructed : entered.map (·.path) = (rt.constructed env paths).2.1.map (·.path)
  between : (rt.load env paths).1.registry.loaded.Perm (entered ++ rt.registry.loaded)
  tally : (rt.load env paths).2
    = .ok ((rt.load env paths).1.unloadScripts env.files paths).2
  loaded : (rt.round env paths).registry.loaded = rt.registry.loaded
  serves : (rt.round env paths).router.Serves ts
  settled : Settled rt (rt.round env paths)
  disabled : ∀ p, Ordered.contains Path.keyCompare p (rt.round env paths).registry.disabled = true ↔
    Ordered.contains Path.keyCompare p rt.registry.disabled = true ∨
      ∃ s ∈ entered, p.same s.path.disabled = true

/-- **One round**, from a state in which no input leads to a loaded script. -/
theorem exists_roundTrip (ho : Owning own) (ha : KeepsAloof σ) {ts : List Trigger}
    (hs : rt.router.Serves ts) (hapart : Registry.Apart rt.registry.loaded)
    (hfree : ∀ p ∈ paths, rt.registry.isLoaded (env.files.scriptPath p) = false)
    (h : rt.Runs env paths) : ∃ entered, RoundTrip rt env paths ts entered := by
  obtain ⟨entered, he⟩ := exists_entering ha h
  have hnew : ∀ s ∈ entered, (paths.map env.files.scriptPath).any s.path.same = true :=
    fun s hs => any_same_of_resolved (he.resolved s hs)
  obtain ⟨htaken, hleft⟩ := Registry.take_enterEach hapart he.apart he.free
    (any_same_of_free hfree) hnew
  rw [← he.registry] at htaken hleft
  have hserved := he.serves ho hs
  refine ⟨entered, ?_⟩
  constructor
  case constructed => exact he.constructed
  case between =>
    rw [he.registry]
    refine Registry.loaded_enterEach_of_free he.apart fun p hp => ?_
    obtain ⟨s, hs, rfl⟩ := List.mem_map.1 hp
    exact he.free s hs
  case tally =>
    rw [he.tally, (unloadScripts_spec _ env.files paths).1]
    exact congrArg Except.ok (Tally.sum_perm (htaken.map _)).symm
  case loaded =>
    unfold round
    rw [registry_unloadScripts ha]
    exact hleft
  case serves =>
    have hback := serves_unloadScripts ho _ env.files paths hserved
    have hperm : (owned own _).Perm (owned own entered) := htaken.flatMap_right _
    rwa [withoutAll_back hserved.ids hperm] at hback
  case settled => exact he.settled.trans (settled_unloadScripts _ env.files paths)
  case disabled =>
    intro p
    unfold round
    rw [registry_unloadScripts ha, Registry.contains_leaveMarkers]
    simp only [List.mem_map, exists_exists_and_eq_and, htaken.mem_iff]
    show Ordered.contains Path.keyCompare p (rt.load env paths).1.registry.disabled = true ∨ _ ↔ _
    rw [he.registry]
    exact Registry.contains_enterEach p entered rt.registry

end Runtime

end EventScripts
