import EventScripts.Demo.Grammar
import EventScripts.Host.Queue
import EventScripts.Proofs.Loader.Handlers
/-!
# Agreement over the runs of a host

A host starts without scripts, and its owner, its queue and the world outside
make it take one step after another; the files may be others at every step.
`agreement_of_reachable` says that between any two steps the triggers bound in
the router are those of the scripts in the registry, each bound once to every
channel that it wants and to no other.
-/

namespace EventScripts.Host

/-- A step of a host. -/
inductive Step (grammar : Grammar Handler) : Host Handler → Host Handler → Prop
  | load (host : Host Handler) (files : FileSystem) (schedule : List Nat) :
    Step grammar host (host.load { grammar, files, schedule }).1
  | reload (host : Host Handler) (files : FileSystem) (schedule : List Nat) :
    Step grammar host (host.reload { grammar, files, schedule }).1
  | unloadAll (host : Host Handler) (files : FileSystem) :
    Step grammar host (host.unloadAll files).1
  | stop (host : Host Handler) (files : FileSystem) : Step grammar host (host.stop files)
  | send (host : Host Handler) (envelope : Envelope) : Step grammar host (host.send envelope)
  | signal (host : Host Handler) : Step grammar host host.signal
  | deliver (host : Host Handler) (event : Event) : Step grammar host (host.deliver event).1
  | handle (host : Host Handler) (envelope : Envelope) : Step grammar host (host.handle envelope)
  /-- The first envelope is taken out of the queue and handled; a reload is not yet served. -/
  | next {host : Host Handler} {envelope : Envelope} {rest : List Envelope} :
    host.queue = envelope :: rest → Step grammar host ({ host with queue := rest }.handle envelope)
  | serveReload (host : Host Handler) (files : FileSystem) (schedule : List Nat) :
    Step grammar host (host.serveReload { grammar, files, schedule })
  | drain (host : Host Handler) (files : FileSystem) (schedule : List Nat) :
    Step grammar host (host.drain { grammar, files, schedule })
  | serve (host : Host Handler) (files : FileSystem) (schedule : List Nat) :
    Step grammar host (host.serve { grammar, files, schedule })
  | run (host : Host Handler) (files : FileSystem) (schedule : List Nat) :
    Step grammar host (host.run { grammar, files, schedule })
  | runUntilShutdown (host : Host Handler) (files : FileSystem) (schedule : List Nat) :
    Step grammar host (host.runUntilShutdown { grammar, files, schedule })

/-- The states of a host between its steps. -/
inductive Reachable (catalog : Catalog) (grammar : Grammar Handler) : Host Handler → Prop
  | fresh (scriptDir : Path) (workers : Nat) : Reachable catalog grammar
      { runtime := { router := { catalog }, workers }, scriptDir }
  | step {host after : Host Handler} : Reachable catalog grammar host → Step grammar host after →
    Reachable catalog grammar after

/-- Router and registry agree. -/
structure Agreement (catalog : Catalog) (host : Host Handler) : Prop where
  /-- The triggers bound are those of the loaded scripts. -/
  bound_iff : ∀ t, (∃ b ∈ host.runtime.router.bindings, t ∈ b.triggers) ↔
    ∃ s ∈ host.runtime.registry.loaded, ∃ h ∈ s.structures, h.trigger = t
  /-- Each is bound once to the channels of its kinds at its tier, and to no other. -/
  once : ∀ s ∈ host.runtime.registry.loaded, ∀ h ∈ s.structures, ∀ c,
    ((host.runtime.router.bound c).map (·.id)).count h.trigger.id
      = if h.trigger.wants catalog c then 1 else 0
  /-- No two structures share a trigger, and a channel is listed once. -/
  identities : (host.runtime.registry.loaded.flatMap fun s =>
    s.structures.map (·.trigger.id)).Nodup
  channels : (host.runtime.router.bindings.map (·.channel)).Nodup

variable {catalog : Catalog} {grammar : Grammar Handler} {host : Host Handler}

/-- What agreement of the runtime comes to. -/
theorem agreement_of_agree (h : host.runtime.Agree (fun h : Handler => some h.trigger) catalog) :
    Agreement catalog host := by
  obtain ⟨hcatalog, ⟨ts, hs, hts⟩, -⟩ := h
  rw [owned_handlers, triggersOf] at hts
  have hmem : ∀ t, t ∈ ts ↔
      ∃ s ∈ host.runtime.registry.loaded, ∃ h ∈ s.structures, h.trigger = t := by
    intro t
    simp only [hts.mem_iff, List.mem_flatMap, List.mem_map]
  constructor
  case bound_iff => exact fun t => hs.mem_iff_binding.symm.trans (hmem t)
  case once =>
    intro s hin h hh c
    rw [← hcatalog]
    exact hs.count_bound ((hmem _).2 ⟨s, hin, h, hh, rfl⟩) c
  case identities =>
    have hids := (hts.map (·.id)).nodup_iff.1 hs.ids
    rw [List.map_flatMap] at hids
    simpa only [List.map_map, Function.comp_def] using hids
  case channels => exact hs.channels

/-! ## What every step keeps -/

/-- A property of runtimes that does not depend on what is recorded, and that the operations keep
which a host makes use of. -/
structure Invariant (grammar : Grammar Handler) (P : Runtime Handler → Prop) : Prop where
  untraced : ∀ {rt} trace, P rt → P { rt with trace }
  loading : ∀ {rt} files schedule root, P rt →
    P (rt.loadDirectory { grammar, files, schedule } root).1
  reloading : ∀ {rt} files schedule root, P rt →
    P (rt.reloadDirectory { grammar, files, schedule } root).1
  unloading : ∀ {rt} files, P rt → P (rt.unloadAll files).1

namespace Invariant

variable {P : Runtime Handler → Prop} (hi : Invariant grammar P)

include hi

theorem deliverAt (event : Event) : ∀ (tiers : List Tier) {host : Host Handler},
    P host.runtime → P (host.deliverAt event tiers).1.runtime
  | [], _, h => h
  | tier :: rest, host, h => deliverAt event rest <| by
    have hkept : P { host.runtime with trace := [] } := hi.untraced [] h
    exact hkept

theorem deliver (event : Event) (h : P host.runtime) : P (host.deliver event).1.runtime := by
  unfold Host.deliver
  split
  · exact h
  · exact hi.deliverAt event _ h

theorem handle (envelope : Envelope) (h : P host.runtime) : P (host.handle envelope).runtime := by
  cases envelope with
  | event event => exact hi.deliver event h
  | reload | shutdown | loaded | unloaded | trouble => exact h

theorem load (files : FileSystem) (schedule : List Nat) (h : P host.runtime) :
    P (host.load { grammar, files, schedule }).1.runtime := by
  unfold Host.load
  split
  · exact hi.untraced _ (hi.loading files schedule _ h)
  · exact h

theorem reload (files : FileSystem) (schedule : List Nat) (h : P host.runtime) :
    P (host.reload { grammar, files, schedule }).1.runtime :=
  hi.untraced _ (hi.reloading files schedule _ h)

theorem serveReload (files : FileSystem) (schedule : List Nat) (h : P host.runtime) :
    P (host.serveReload { grammar, files, schedule }).runtime := by
  unfold Host.serveReload
  split
  · have hr : P ({ host with reloadRequested := false }.reload
        { grammar, files, schedule }).1.runtime := hi.reload files schedule h
    split
    all_goals
      next heq =>
        rw [heq] at hr
        exact hr
  · exact h

theorem unloadAll (files : FileSystem) (h : P host.runtime) :
    P (host.unloadAll files).1.runtime :=
  hi.untraced _ (hi.unloading files h)

theorem handleNext (files : FileSystem) (schedule : List Nat) (envelope : Envelope)
    (rest : List Envelope) (h : P host.runtime) :
    P (host.handleNext { grammar, files, schedule } envelope rest).runtime := by
  have hh : P ({ host with queue := rest }.handle envelope).runtime := hi.handle envelope h
  exact hi.serveReload files schedule hh

theorem drain (files : FileSystem) (schedule : List Nat) (h : P host.runtime) :
    P (host.drain { grammar, files, schedule }).runtime := by
  fun_induction Host.drain host { grammar, files, schedule } with
  | case1 => exact h
  | case2 host envelope rest hq ih => exact ih (hi.handleNext files schedule envelope rest h)

theorem serve (files : FileSystem) (schedule : List Nat) (h : P host.runtime) :
    P (host.serve { grammar, files, schedule }).runtime := by
  fun_induction Host.serve host { grammar, files, schedule } with
  | case1 | case2 => exact h
  | case3 host envelope rest hq hstop ih =>
    exact ih (hi.handleNext files schedule envelope rest h)

theorem runUntilShutdown (files : FileSystem) (schedule : List Nat) (h : P host.runtime) :
    P (host.runUntilShutdown { grammar, files, schedule }).runtime := by
  have hs := hi.serve files schedule h
  unfold Host.runUntilShutdown
  simp only
  split <;> exact hi.unloadAll files hs

/-- **Every step keeps it.** -/
theorem step {after : Host Handler} (hs : Step grammar host after) (h : P host.runtime) :
    P after.runtime := by
  cases hs with
  | load files schedule => exact hi.load files schedule h
  | reload files schedule => exact hi.reload files schedule h
  | unloadAll files => exact hi.unloadAll files h
  | stop files => exact hi.unloadAll files h
  | send | signal => exact h
  | deliver event => exact hi.deliver event h
  | handle envelope => exact hi.handle envelope h
  | next => exact hi.handle _ h
  | serveReload files schedule => exact hi.serveReload files schedule h
  | drain files schedule => exact hi.drain files schedule h
  | serve files schedule => exact hi.serve files schedule h
  | run files schedule => exact hi.unloadAll files (hi.serve files schedule h)
  | runUntilShutdown files schedule => exact hi.runUntilShutdown files schedule h

/-- **What holds of a fresh host and is kept** holds in every state. -/
theorem of_reachable (hfresh : ∀ workers, P { router := { catalog }, workers })
    (h : Reachable catalog grammar host) : P host.runtime := by
  induction h with
  | fresh scriptDir workers => exact hfresh workers
  | step _ hs ih => exact hi.step hs ih

end Invariant

/-- A script directory that is there is loaded. -/
theorem load_of_exists {σ : Type} [Structure σ] {host : Host σ} {env : Surroundings σ}
    (h : env.files.exists? host.scriptDir = true) : host.load env
      = (host.take (host.runtime.loadDirectory env host.scriptDir).1,
        (host.runtime.loadDirectory env host.scriptDir).2) := if_pos h

theorem closesQuietly_default : ({} : Scope).ClosesQuietly := nofun

theorem invariant_agree (catalog : Catalog) (grammar : Grammar Handler) :
    Invariant grammar (Runtime.Agree (fun h : Handler => some h.trigger) catalog) where
  untraced _ h := h.congr rfl rfl
  loading _ _ root h :=
    Runtime.agree_loadDirectory owning_handler keepsAloof_handler _ closesQuietly_default root h
  reloading _ _ root h :=
    Runtime.agree_reloadDirectory owning_handler keepsAloof_handler _ closesQuietly_default root h
  unloading files h := Runtime.agree_unloadAll owning_handler keepsAloof_handler files h

/-- **Router and registry agree in every state of a host.** -/
theorem agreement_of_reachable (catalog : Catalog) (grammar : Grammar Handler) (host : Host Handler)
    (h : Reachable catalog grammar host) : Agreement catalog host :=
  agreement_of_agree <| (invariant_agree catalog grammar).of_reachable
    (fun _ => ⟨rfl, ⟨[], Router.serves_nil catalog, .refl _⟩, List.Pairwise.nil⟩) h

/-- One script with one section. -/
def oneScript : FileSystem :=
  { entries := [(["a.sk"], .file (.text "on join or chat:\n  hi\n"))] }

theorem discover_oneScript : discover oneScript ⟨"/a.sk"⟩ = { enabled := [⟨"/a.sk"⟩] } := by
  have hfind : oneScript.find ⟨"/a.sk"⟩
      = .ok (["a.sk"], .file (.text "on join or chat:\n  hi\n")) := by cbv
  simp only [discover, hfind]
  decide +kernel

/-- A host that has loaded the script. -/
def loaded : Host Handler :=
  ((⟨⟨⟨Demo.catalog, []⟩, {}, 0, 1, []⟩, ⟨"/a.sk"⟩, [], [], false, false, []⟩ : Host Handler).load
    ⟨Demo.grammar, oneScript, {}, []⟩).1

theorem agreement_loaded :
    (loaded.runtime.registry.loaded.map (·.structures.length) = [1] ∧
      loaded.runtime.router.triggerIds = [1]) ∧ Agreement Demo.catalog loaded := by
  constructor
  · simp only [loaded, Host.load, Runtime.loadDirectory, Runtime.scan, discover_oneScript]
    cbv
  · exact agreement_of_reachable Demo.catalog Demo.grammar loaded
      (.step (.fresh ⟨"/a.sk"⟩ 0) (.load _ oneScript []))

end EventScripts.Host
