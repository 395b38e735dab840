import EventScripts.Proofs.Loader.Loading
import EventScripts.Proofs.Loader.Owning
import EventScripts.Proofs.Loader.Records
/-!
# Agreement of router and registry

Among structures that own triggers and keep out of the registry, the router
serves exactly the triggers that the loaded scripts own. Loading, unloading and
reloading keep it so, whatever files they find, as long as no scope panics while
it is closed.
-/

namespace EventScripts

/-- The scope does not panic while it is closed. -/
def Scope.ClosesQuietly (scope : Scope) : Prop :=
  ∀ count text, scope.closing count ≠ .error (.panic text)

namespace Action

variable {σ : Type}

/-- The action does not enter scripts. -/
def Aloof : Action σ → Prop
  | finish _ _ => True
  | bind _ next => ∀ answer, (next answer).Aloof
  | release _ next => ∀ found, (next found).Aloof
  | enroll _ _ => False
  | look next => ∀ router, (next router).Aloof
  | remark _ next => next.Aloof

end Action

/-- The structures of a type keep out of the registry. -/
def KeepsAloof (σ : Type) [Structure σ] : Prop :=
  ∀ phase path (self : σ), (Structure.act phase path self).Aloof

theorem keepsAloof_handler : KeepsAloof Handler := by
  intro phase path self
  cases phase with
  | load =>
    intro answer
    cases answer <;> trivial
  | unload => exact fun _ => trivial
  | preLoad | postLoad | postUnload | execute => trivial

namespace Runtime

variable {σ : Type}

theorem registry_perform : ∀ (action : Action σ) (rt : Runtime σ), action.Aloof →
    (rt.perform action).1.registry = rt.registry
  | .finish _ _, _, _ => rfl
  | .bind t next, rt, h =>
    (registry_perform (next (rt.bind t).2) (rt.bind t).1 (h _)).trans (registry_bind rt t)
  | .release id next, rt, h => registry_perform (next (rt.release id).2) (rt.release id).1 (h _)
  | .look next, rt, h => registry_perform (next rt.router) rt (h _)
  | .remark remark next, rt, h => registry_perform next (rt.record [.remarked remark]) h

/-- The triggers that the structures of scripts own. -/
def owned (own : σ → Option Trigger) (scripts : List (Script σ)) : List Trigger :=
  scripts.flatMap fun s => s.structures.filterMap own

/-- The router has the catalog and serves the triggers of the loaded scripts, which differ in
their paths. -/
structure Agree (own : σ → Option Trigger) (catalog : Catalog) (rt : Runtime σ) : Prop where
  catalog : rt.router.catalog = catalog
  serves : ∃ ts, rt.router.Serves ts ∧ ts.Perm (owned own rt.registry.loaded)
  apart : Registry.Apart rt.registry.loaded

variable {own : σ → Option Trigger} {catalog : Catalog} {rt : Runtime σ}

/-- Agreement is about the router and the loaded scripts only. -/
theorem Agree.congr {last : Runtime σ} (h : Agree own catalog rt) (hr : last.router = rt.router)
    (hl : last.registry.loaded = rt.registry.loaded) : Agree own catalog last := by
  obtain ⟨hc, hs, ha⟩ := h
  rw [← hr, ← hl] at hs
  exact ⟨hr ▸ hc, hs, hl ▸ ha⟩

/-- The triggers of the scripts of a batch are those of the structures that have stayed. -/
theorem owned_of_grouped {k : Nat} {scripts : List (Script σ)} {ms : List (Member σ)}
    (h : Member.Grouped k scripts ms) : owned own scripts = Call.triggers own ms := by
  have hself := congrArg (List.filterMap own) h.flatMap_structures
  rwa [List.filterMap_flatMap, List.filterMap_map] at hself

/-- Scanning a directory changes only the disabled markers. -/
theorem scan_spec (files : FileSystem) (root : Path) (rt : Runtime σ) :
    (rt.scan files root).1.router = rt.router ∧
      (rt.scan files root).1.registry.loaded = rt.registry.loaded := by
  obtain ⟨os, -, hscan⟩ := exists_scan rt files root
  rw [hscan]
  exact ⟨rfl, Registry.loaded_rescan rt.registry files root⟩

variable [Structure σ]

theorem registry_call (ha : KeepsAloof σ) (c : Call σ) : c.after.registry = c.before.registry :=
  c.registry_after.trans (registry_perform _ c.begun (ha _ _ _))

theorem registry_linked (ha : KeepsAloof σ) : ∀ {calls : List (Call σ)} {rt last : Runtime σ},
    Call.Linked rt calls last → last.registry = rt.registry
  | [], _, _, h => by rw [show _ = _ from h]
  | c :: _, _, _, ⟨hb, h⟩ => (registry_linked ha h).trans (hb ▸ registry_call ha c)

/-! ## Loading -/

/-- **An activated batch whose scripts are entered**: no structure has taken a path, so that all
of them are. -/
theorem agree_completed (ho : Owning own) (ha : KeepsAloof σ) {start last : Runtime σ}
    {scripts : List (Script σ)} (h : Agree own catalog start) (hapart : Registry.Apart scripts)
    (hfree : ∀ s ∈ scripts, start.registry.isLoaded s.path = false)
    (hc : Completed (start.activate scripts).1 (start.activate scripts).2 last) :
    Agree own catalog last := by
  obtain ⟨pre, load, post, hact⟩ := exists_activation start scripts
  obtain ⟨ts, hs, hts⟩ := h.serves
  have hkept : (start.activate scripts).1.registry = start.registry :=
    registry_linked ha hact.linked
  have hpaths : ∀ p ∈ (start.activate scripts).2.map (·.path),
      start.registry.isLoaded p = false := by
    rw [hact.paths]
    intro p hp
    obtain ⟨s, hs, rfl⟩ := List.mem_map.1 hp
    exact hfree s hs
  have hloaded : last.registry.loaded.Perm
      ((start.activate scripts).2 ++ start.registry.loaded) := by
    rw [hc.registry, hkept]
    exact Registry.loaded_enterEach_of_free (hact.apart hapart) hpaths
  constructor
  · rw [hc.router]
    exact Call.kept_linked (kept_catalog catalog) hact.linked h.catalog
  · refine ⟨_, hc.router ▸ hact.serves ho hs, ?_⟩
    refine List.Perm.trans ?_ (hloaded.flatMap_right _).symm
    rw [List.flatMap_append]
    refine List.Perm.trans ?_ List.perm_append_comm
    exact hts.append (List.Perm.of_eq (owned_of_grouped hact.grouped).symm)
  · rw [hc.registry, hkept]
    exact Registry.apart_enterEach _ h.apart

theorem agree_load (ho : Owning own) (ha : KeepsAloof σ) (env : Surroundings σ)
    (hscope : env.scope.ClosesQuietly) (paths : List Path)
    (h : Agree own catalog rt) : Agree own catalog (rt.load env paths).1 := by
  rcases load_cases rt env paths with
    ⟨violation, hl⟩ | ⟨built, start, hprepared, hapart, hfree, hend⟩
  · rw [hl]
    exact h.congr rfl rfl
  · have hstart : Agree own catalog start :=
      h.congr hprepared.router (by rw [hprepared.registry])
    rcases hend with ⟨e, hl⟩ | ⟨text, count, hc, -⟩ | ⟨tally, -, hcompleted⟩
    · rw [hl]
      exact hstart
    · exact absurd hc (hscope count text)
    · exact agree_completed ho ha hstart hapart (hprepared.registry ▸ hfree) hcompleted

/-! ## Unloading -/

theorem registry_unloadPass (ha : KeepsAloof σ) (scripts : List (Script σ)) (rt : Runtime σ) :
    (rt.unloadPass scripts).1.registry = rt.registry :=
  unloadPass_induction (P := fun last => last.registry = rt.registry)
    (fun path self mid h => (registry_call ha ⟨.unload, ⟨0, 0, path, self⟩, mid⟩).trans h)
    scripts rfl

theorem registry_postUnloadPass (ha : KeepsAloof σ) (scripts : List (Script σ)) (rt : Runtime σ) :
    (rt.postUnloadPass scripts).registry = rt.registry :=
  postUnloadPass_induction (P := fun last => last.registry = rt.registry) (fun _ _ h => h)
    (fun path self mid h => (registry_call ha ⟨.postUnload, ⟨0, 0, path, self⟩, mid⟩).trans h)
    scripts rfl

theorem router_postUnloadPass (ho : Owning own) (scripts : List (Script σ)) (rt : Runtime σ) :
    (rt.postUnloadPass scripts).router = rt.router :=
  postUnloadPass_induction (P := fun last => last.router = rt.router) (fun _ _ h => h)
    (fun path self mid h =>
      (Call.owning_idle ho ⟨.postUnload, ⟨0, 0, path, self⟩, mid⟩ nofun nofun).2.trans h)
    scripts rfl

/-- What a structure releases is gone, wherever it was in the order of binding. -/
theorem without_perm {ts rest : List Trigger} {o : Option Trigger} (hids : (ts.map (·.id)).Nodup)
    (h : ts.Perm (o.toList ++ rest)) : (without o ts).Perm rest := by
  have hw : without o ([] ++ (o.toList ++ rest)) = [] ++ rest :=
    without_eq ((h.map _).nodup_iff.1 hids)
  exact (h.filter _).trans (List.Perm.of_eq hw)

/-- Unloading structures releases what they own. -/
theorem serves_callAll_unload (ho : Owning own) (path : Path) : ∀ (structures : List σ)
    {rt : Runtime σ} {ts rest : List Trigger}, rt.router.Serves ts →
    ts.Perm (structures.filterMap own ++ rest) →
    ∃ left, (rt.callAll .unload path structures).1.router.Serves left ∧ left.Perm rest
  | [], _, ts, _, hs, hp => ⟨ts, hs, hp⟩
  | self :: structures, rt, ts, rest, hs, hp => by
    have hu := (Call.owning_unload ho ⟨.unload, ⟨0, 0, path, self⟩, rt⟩ rfl hs).2
    refine serves_callAll_unload ho path structures hu (without_perm hs.ids (hp.trans ?_))
    refine List.Perm.of_eq ?_
    rw [List.filterMap_cons]
    cases own self <;> rfl

theorem serves_unloadPass (ho : Owning own) : ∀ (scripts : List (Script σ)) (rt : Runtime σ)
    {ts rest : List Trigger}, rt.router.Serves ts → ts.Perm (owned own scripts ++ rest) →
    ∃ left, (rt.unloadPass scripts).1.router.Serves left ∧ left.Perm rest
  | [], _, ts, _, hs, hp => ⟨ts, hs, hp⟩
  | script :: scripts, _, ts, rest, hs, hp => by
    rw [owned, List.flatMap_cons, List.append_assoc] at hp
    obtain ⟨left, hleft, hperm⟩ :=
      serves_callAll_unload ho script.path script.structures hs hp
    exact serves_unloadPass ho scripts _ hleft hperm

theorem agree_unload (ho : Owning own) (ha : KeepsAloof σ) (paths : List Path)
    (h : Agree own catalog rt) : Agree own catalog (rt.unload paths).1 := by
  have htake := Registry.take_perm h.apart paths
  obtain ⟨ts, hs, hts⟩ := h.serves
  rw [owned, List.Perm.congr_right (htake.flatMap_right _), List.flatMap_append] at hts
  obtain ⟨left, hleft, hperm⟩ := serves_unloadPass ho (rt.registry.take paths).1
    { rt with registry := (rt.registry.take paths).2 } hs hts
  have hregistry : (rt.unload paths).1.registry.loaded = (rt.registry.take paths).2.loaded := by
    show (Runtime.postUnloadPass _ _).registry.loaded = _
    rw [registry_postUnloadPass ha, registry_unloadPass ha]
    rfl
  have hrouter : (rt.unload paths).1.router
      = ({ rt with registry := (rt.registry.take paths).2 }.unloadPass
          (rt.registry.take paths).1).1.router :=
    router_postUnloadPass ho _ _
  constructor
  · rw [hrouter]
    exact (kept_catalog catalog).unloadPass _ h.catalog
  · rw [hrouter, hregistry]
    exact ⟨left, hleft, hperm⟩
  · rw [hregistry]
    exact Registry.apart_left h.apart paths

/-! ## The operations of the loader -/

theorem agree_unloadScripts (ho : Owning own) (ha : KeepsAloof σ) (files : FileSystem)
    (paths : List Path) (h : Agree own catalog rt) :
    Agree own catalog (rt.unloadScripts files paths).1 := by
  obtain ⟨total, hunload⟩ := exists_unloadScripts rt files paths
  rw [hunload]
  exact (agree_unload ho ha (paths.map files.scriptPath) h).congr rfl rfl

theorem agree_unloadAll (ho : Owning own) (ha : KeepsAloof σ) (files : FileSystem)
    (h : Agree own catalog rt) : Agree own catalog (rt.unloadAll files).1 :=
  agree_unloadScripts ho ha files _ h

theorem agree_loadDirectory (ho : Owning own) (ha : KeepsAloof σ) (env : Surroundings σ)
    (hscope : env.scope.ClosesQuietly) (root : Path)
    (h : Agree own catalog rt) : Agree own catalog (rt.loadDirectory env root).1 := by
  obtain ⟨hr, hl⟩ := scan_spec env.files root rt
  exact agree_load ho ha env hscope _ (h.congr hr hl)

theorem agree_reloadDirectory (ho : Owning own) (ha : KeepsAloof σ) (env : Surroundings σ)
    (hscope : env.scope.ClosesQuietly) (root : Path)
    (h : Agree own catalog rt) : Agree own catalog (rt.reloadDirectory env root).1 := by
  obtain ⟨count, hreload⟩ := exists_reloadDirectory rt env root
  rw [hreload]
  exact (agree_loadDirectory ho ha env hscope root
    (agree_unloadAll ho ha env.files h)).congr rfl rfl

end Runtime

end EventScripts
