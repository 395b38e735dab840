import EventScripts.Demo.Grammar
import EventScripts.Proofs.Loader.Asked
import EventScripts.Proofs.Loader.Refusal
import EventScripts.Proofs.Loader.RoundTrip
import EventScripts.Proofs.Pool.Shape
/-!
# Any number of rounds

After a round of loading and unloading a batch the registry and the router are
as they were, but for the markers of the scripts. `load_unload_restores` says so
of any number of rounds, and that in the same surroundings every round succeeds
and comes to the same as the first.

The last takes more than that every round starts from the same state, for this is
true only of what is loaded and bound: identities are never given out again,
markers are left behind. Whether a batch runs, and which of its scripts are
constructed, depends on the scope; and the scope is used in the same way in every
round because the workers do not look at what they construct.

This is the round trip of `SPEC_FULL.md` §8.
-/

namespace EventScripts

/-! ## What is constructed again -/

/-- Whatever a grammar makes of them, files are constructed into scripts of their paths. -/
theorem Construct.results_scripts {σ : Type} (grammar : Grammar σ) (catalog : Catalog)
    (census : Census) : ∀ (first : Nat) (trees : List Tree),
    (scripts grammar catalog census first trees).1.map (fun work => work.result.map Script.path)
      = trees.map fun tree => .ok tree.path
  | _, [] => rfl
  | first, tree :: rest => by
    rw [scripts, List.map_cons, List.map_cons, results_scripts]
    rfl

namespace Runtime

variable {σ : Type} {own : σ → Option Trigger} {rt last : Runtime σ} {ts : List Trigger}
  {env : Surroundings σ} {paths : List Path}

/-- If the host listens on a channel as before, all that was asked about it comes to nothing. -/
theorem Asked.net {c : Channel} (h : Asked rt last)
    (hlisten : last.router.isListening c = rt.router.isListening c) :
    HostCall.net c (Occurrence.hostCalls last.trace)
      = HostCall.net c (Occurrence.hostCalls rt.trace) := by
  obtain ⟨-, calls, hcalls, halternates⟩ := h
  have hzero := (hlisten ▸ halternates c).net_eq_zero
  rw [hcalls, HostCall.net_append, hzero, Int.add_zero]

/-! ## What is constructed again -/

/-- What constructing a batch comes to is what its works come to. -/
theorem constructed_snd (rt : Runtime σ) (env : Surroundings σ) (paths : List Path) :
    (rt.constructed env paths).2
      = ((Task.runAll env.scope rt.registry.census (if rt.workers = 0 then [] else env.schedule)
          (rt.works env paths) {}).1.filterMap (·.toOption),
        (Task.runAll env.scope rt.registry.census (if rt.workers = 0 then [] else env.schedule)
          (rt.works env paths) {}).2.1) := rfl

/-- **The same scripts are constructed again**, and the scope is used in the same way, as long as
there are as many workers. -/
theorem constructed_congr (h : last.workers = rt.workers) (env : Surroundings σ)
    (paths : List Path) :
    (last.constructed env paths).2.1.map (·.path) = (rt.constructed env paths).2.1.map (·.path) ∧
      (last.constructed env paths).2.2 = (rt.constructed env paths).2.2 := by
  have hpaths : ∀ results : List (Except WorkFault (Script σ)),
      (results.filterMap (·.toOption)).map (·.path)
        = (results.map (·.map Script.path)).filterMap (·.toOption) := by
    intro results
    rw [List.map_filterMap, List.filterMap_map]
    refine List.filterMap_congr fun result _ => ?_
    cases result <;> rfl
  have hworks : (last.works env paths).map (fun work => work.result.map Script.path)
      = (rt.works env paths).map fun work => work.result.map Script.path :=
    (Construct.results_scripts _ _ _ _ _).trans (Construct.results_scripts _ _ _ _ _).symm
  obtain ⟨hresults, huse⟩ := Task.runAll_congr env.scope last.registry.census rt.registry.census
    hworks (if rt.workers = 0 then [] else env.schedule) {}
  rw [constructed_snd, constructed_snd, h]
  exact ⟨(hpaths _).trans ((congrArg _ hresults).trans (hpaths _).symm), huse⟩

/-! ## Rounds -/

/-- Back from some rounds: registry and router are as they were, and the host listens as it did. -/
structure Back (rt : Runtime σ) (ts : List Trigger) (last : Runtime σ) : Prop where
  loaded : last.registry.loaded = rt.registry.loaded
  serves : last.router.Serves ts
  settled : Settled rt last
  net : ∀ c, HostCall.net c (Occurrence.hostCalls last.trace)
    = HostCall.net c (Occurrence.hostCalls rt.trace)

theorem Back.refl (hs : rt.router.Serves ts) : Back rt ts rt :=
  ⟨rfl, hs, ⟨rfl, rfl⟩, fun _ => rfl⟩

/-- Routers that serve the same triggers have them bound in the same places, in the same order. -/
theorem Settled.bound (h : Settled rt last) (hs : rt.router.Serves ts)
    (hlast : last.router.Serves ts) (c : Channel) : last.router.bound c = rt.router.bound c := by
  rw [hlast.bound, hs.bound, h.catalog]

theorem Settled.isListening (h : Settled rt last) (hs : rt.router.Serves ts)
    (hlast : last.router.Serves ts) (c : Channel) :
    last.router.isListening c = rt.router.isListening c := by
  rw [hlast.isListening, hs.isListening, h.catalog]

/-- A batch that runs would run again, if what is loaded is the same. -/
theorem Runs.again (h : rt.Runs env paths) (hloaded : last.registry.loaded = rt.registry.loaded)
    (hworkers : last.workers = rt.workers) : last.Runs env paths := by
  have huse : last.useBefore env paths = rt.useBefore env paths :=
    (constructed_congr hworkers env paths).2
  refine ⟨?_, huse ▸ h.opens, huse ▸ h.closes⟩
  obtain ⟨hapart, hfree, -⟩ := Registry.violation?_eq_none h.admitted
  refine Registry.violation?_of_free hapart (fun p hp => ?_) (by simp)
  rw [Registry.isLoaded_congr hloaded]
  exact hfree p hp

/-- Scripts of the same paths leave the same markers. -/
theorem leaves_congr {scripts others : List (Script σ)}
    (h : scripts.map (·.path) = others.map (·.path)) (p : Path) :
    (∃ s ∈ scripts, p.same s.path.disabled = true) ↔
      ∃ s ∈ others, p.same s.path.disabled = true := by
  have hpath : ∀ scripts : List (Script σ), (∃ s ∈ scripts, p.same s.path.disabled = true) ↔
      ∃ q ∈ scripts.map (·.path), p.same q.disabled = true := by
    intro scripts
    simp only [List.mem_map, exists_exists_and_eq_and]
  rw [hpath, hpath, h]

/-- What has been restored when some scripts have been loaded and unloaded again. -/
structure Restored (rt : Runtime σ) (scripts : List (Script σ)) (last : Runtime σ) : Prop where
  loaded : last.registry.loaded = rt.registry.loaded
  /-- In every place of the router the same triggers are bound in the same order. -/
  bound : ∀ c, last.router.bound c = rt.router.bound c
  listening : ∀ c, last.router.isListening c = rt.router.isListening c
  net : ∀ c, HostCall.net c (Occurrence.hostCalls last.trace)
    = HostCall.net c (Occurrence.hostCalls rt.trace)
  /-- The markers are those that there were and those that the scripts have left. -/
  disabled : ∀ p, Ordered.contains Path.keyCompare p last.registry.disabled = true ↔
    Ordered.contains Path.keyCompare p rt.registry.disabled = true ∨
      ∃ s ∈ scripts, p.same s.path.disabled = true

theorem Back.restored {scripts : List (Script σ)} (h : Back rt ts last) (hs : rt.router.Serves ts)
    (hdisabled : ∀ p, Ordered.contains Path.keyCompare p last.registry.disabled = true ↔
      Ordered.contains Path.keyCompare p rt.registry.disabled = true ∨
        ∃ s ∈ scripts, p.same s.path.disabled = true) : Restored rt scripts last :=
  ⟨h.loaded, h.settled.bound hs h.serves, h.settled.isListening hs h.serves, h.net, hdisabled⟩

variable [Structure σ]

theorem asked_round (h : ∃ ts, rt.router.Serves ts) : Asked rt (rt.round env paths) :=
  asked_unloadScripts (asked_load (asked_refl h) env paths) env.files paths

/-- **One more round**, from a state that is back from others. -/
theorem Back.round (ho : Owning own) (ha : KeepsAloof σ)
    (hapart : Registry.Apart rt.registry.loaded)
    (hfree : ∀ p ∈ paths, rt.registry.isLoaded (env.files.scriptPath p) = false)
    (h : Back rt ts last) (hr : last.Runs env paths) :
    Back rt ts (last.round env paths) ∧ ∃ entered, RoundTrip last env paths ts entered := by
  have hfree' : ∀ p ∈ paths, last.registry.isLoaded (env.files.scriptPath p) = false := by
    intro p hp
    rw [Registry.isLoaded_congr h.loaded]
    exact hfree p hp
  obtain ⟨entered, htrip⟩ := exists_roundTrip ho ha h.serves (h.loaded ▸ hapart) hfree' hr
  have hasked : Asked last (last.round env paths) := asked_round ⟨ts, h.serves⟩
  refine ⟨⟨htrip.loaded.trans h.loaded, htrip.serves, h.settled.trans htrip.settled, fun c => ?_⟩,
    entered, htrip⟩
  rw [hasked.net (htrip.settled.isListening h.serves htrip.serves c)]
  exact h.net c

/-- Rounds in surroundings that may be others each time, but for the files; every time the batch is
loaded. The scripts are those that are entered in the rounds. -/
inductive Rounds (files : FileSystem) (paths : List Path) :
    Runtime σ → List (Script σ) → Runtime σ → Prop
  | nil (rt : Runtime σ) : Rounds files paths rt [] rt
  | cons {rt last : Runtime σ} {env : Surroundings σ} {tally : Tally}
    {entered scripts : List (Script σ)} : env.files = files → (rt.load env paths).2 = .ok tally →
    (rt.load env paths).1.registry.loaded.Perm (entered ++ rt.registry.loaded) →
    Rounds files paths (rt.round env paths) scripts last →
    Rounds files paths rt (entered ++ scripts) last

/-- **Any rounds** lead back, and leave the markers of all scripts that they have entered. -/
theorem Back.rounds {files : FileSystem} {mid : Runtime σ} {scripts : List (Script σ)}
    (ho : Owning own) (ha : KeepsAloof σ) (hapart : Registry.Apart rt.registry.loaded)
    (hfree : ∀ p ∈ paths, rt.registry.isLoaded (files.scriptPath p) = false)
    (hrounds : Rounds files paths mid scripts last) (h : Back rt ts mid) :
    Back rt ts last ∧ ∀ p, Ordered.contains Path.keyCompare p last.registry.disabled = true ↔
      Ordered.contains Path.keyCompare p mid.registry.disabled = true ∨
        ∃ s ∈ scripts, p.same s.path.disabled = true := by
  induction hrounds with
  | nil => exact ⟨h, fun p => by simp⟩
  | @cons mid last env tally entered scripts hfiles hok hbetween _ ih =>
    subst hfiles
    have hr := (load_ok_iff mid env paths).1 ⟨tally, hok⟩
    obtain ⟨hb, entered', htrip⟩ := h.round ho ha hapart hfree hr
    obtain ⟨hlast, hdisabled⟩ := ih hb
    -- the registry tells which scripts have been entered
    have hperm : entered'.Perm entered :=
      (List.perm_append_right_iff _).1 (htrip.between.symm.trans hbetween)
    refine ⟨hlast, fun p => ?_⟩
    rw [hdisabled, htrip.disabled]
    simp only [hperm.mem_iff, List.mem_append, or_and_right, exists_or, or_assoc]

/-- The same round a number of times. -/
def rounds (rt : Runtime σ) (env : Surroundings σ) (paths : List Path) : Nat → Runtime σ
  | 0 => rt
  | n + 1 => (rt.rounds env paths n).round env paths

/-- What comes of loading and unloading a batch again and again. -/
structure Restores (rt : Runtime σ) (env : Surroundings σ) (paths : List Path) (tally : Tally)
    (entered : List (Script σ)) : Prop where
  /-- In between the scripts are loaded besides those that were loaded before. -/
  between : (rt.load env paths).1.registry.loaded.Perm (entered ++ rt.registry.loaded)
  /-- Unloading counts what loading has counted. -/
  tally : ((rt.load env paths).1.unloadScripts env.files paths).2 = tally
  /-- Any number of rounds in the same surroundings comes to the same, -/
  restored : ∀ n, Restored rt entered (rt.rounds env paths (n + 1))
  /-- and each of them succeeds. -/
  again : ∀ n, ∃ tally, ((rt.rounds env paths n).load env paths).2 = .ok tally ∧
    (((rt.rounds env paths n).load env paths).1.unloadScripts env.files paths).2 = tally
  /-- In other surroundings other scripts may be entered; all of them leave their markers. -/
  onward : ∀ {scripts last}, Rounds env.files paths rt scripts last → Restored rt scripts last

/-- **Loading and unloading restores**, in every state of a loader: if a batch none of whose inputs
leads to a loaded script is loaded, unloading it leaves everything as before but for the markers,
and so does any number of rounds. -/
theorem load_unload_restores {catalog : Catalog} (ho : Owning own) (ha : KeepsAloof σ)
    (h : Reachable catalog rt) (env : Surroundings σ) (paths : List Path)
    (hfree : ∀ p ∈ paths, rt.registry.isLoaded (env.files.scriptPath p) = false) {tally : Tally}
    (hok : (rt.load env paths).2 = .ok tally) :
    ∃ entered, Restores rt env paths tally entered := by
  obtain ⟨ts, hs⟩ := serves_of_reachable h
  have hapart := apart_of_reachable h
  have hr := (load_ok_iff rt env paths).1 ⟨tally, hok⟩
  have hround := fun {last} (hb : Back rt ts last) =>
    hb.round ho ha hapart hfree (hr.again hb.loaded hb.settled.workers)
  have hback : ∀ n, Back rt ts (rt.rounds env paths n) := by
    intro n
    induction n with
    | zero => exact .refl hs
    | succ n ih => exact (hround ih).1
  obtain ⟨-, entered, hfirst⟩ := hround (.refl hs)
  refine ⟨entered, ?_⟩
  constructor
  case between => exact hfirst.between
  case tally => exact Except.ok.inj (hfirst.tally.symm.trans hok)
  case restored =>
    intro n
    refine (hback (n + 1)).restored hs ?_
    induction n with
    | zero => exact hfirst.disabled
    | succ n ih =>
      intro p
      obtain ⟨-, more, hmore⟩ := hround (hback (n + 1))
      have hpaths : more.map (·.path) = entered.map (·.path) := by
        rw [hmore.constructed, hfirst.constructed]
        exact (constructed_congr (hback (n + 1)).settled.workers env paths).1
      rw [rounds, hmore.disabled, ih, leaves_congr hpaths, or_assoc, or_self]
  case again =>
    intro n
    obtain ⟨-, more, hmore⟩ := hround (hback n)
    exact ⟨_, hmore.tally, rfl⟩
  case onward =>
    intro scripts last hrounds
    obtain ⟨hb, hdisabled⟩ := Back.rounds ho ha hapart hfree hrounds (.refl hs)
    exact hb.restored hs hdisabled

/-- A loader before its first step. -/
def newLoader : Runtime Handler := { router := { catalog := Demo.catalog } }

/-- A file system with one script. -/
def sampleFiles : FileSystem :=
  { entries := [(["a.sk"], .file (.text "on join:\n  hi\n"))] }

theorem load_unload_restores_sample :
    ((Owning fun h : Handler => some h.trigger) ∧ KeepsAloof Handler ∧
      Reachable Demo.catalog newLoader ∧ newLoader.registry.isLoaded ⟨"/a.sk"⟩ = false ∧
      (newLoader.load ⟨Demo.grammar, sampleFiles, {}, []⟩ [⟨"/a.sk"⟩]).2 = .ok ⟨1, 1⟩) ∧
    ∃ entered,
      Restores newLoader ⟨Demo.grammar, sampleFiles, {}, []⟩ [⟨"/a.sk"⟩] ⟨1, 1⟩ entered := by
  have hok : (newLoader.load ⟨Demo.grammar, sampleFiles, {}, []⟩ [⟨"/a.sk"⟩]).2 = .ok ⟨1, 1⟩ := by
    cbv
  exact ⟨⟨owning_handler, keepsAloof_handler, .fresh 0, rfl, hok⟩,
    load_unload_restores owning_handler keepsAloof_handler (.fresh 0) _ _ (fun _ _ => rfl) hok⟩

end Runtime

end EventScripts
