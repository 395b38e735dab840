import EventScripts.Proofs.Host.Reloading
import EventScripts.Proofs.Loader.Unloading
/-!
# The discipline of the queue

Which envelopes a host handles, in which order, and when it reloads in between,
is told by a list of deeds; `Works` says what the host is after them, one
transition at a time. A turn of the loop handles the first envelope and serves
the reload that it may ask for (`works_handleNext`), and it puts notices at the
end of the queue, which ask for nothing and put nothing there themselves. So
draining the queue handles what lay in it and then the notices of that, and a
run ends with the first request to stop (`queue_discipline`).

`SPEC_FULL.md` §10.6 (Runner) has the channel, the reload requests and `Shutdown`.
-/

namespace EventScripts

variable {σ : Type}

/-- Whether an envelope only tells what has become of a script. -/
def Envelope.isNotice : Envelope → Bool
  | event _ | reload | shutdown => false
  | loaded .. | unloaded _ | trouble .. => true

/-- The envelopes that what happens puts into the queue. -/
def Happening.envelopes : Happening → List Envelope
  | inner occurrence => Host.envelopesOf occurrence
  | said _ => []

/-- What a host does about its queue. -/
inductive Deed where
  | handled (envelope : Envelope)
  | reloaded
deriving DecidableEq, Repr

/-- What is to be done about an envelope: it is handled, and a reload follows at once if it asks
for one. -/
def Envelope.deeds : Envelope → List Deed
  | reload => [.handled reload, .reloaded]
  | e => [.handled e]

/-- There are as many reloads as there are requests. -/
theorem Envelope.count_reloaded_deeds (es : List Envelope) :
    (es.flatMap deeds).count .reloaded = es.count .reload := by
  induction es with
  | nil => rfl
  | cons e es ih => cases e <;> simp [deeds, ih]

theorem Envelope.deeds_of_isNotice {e : Envelope} (h : e.isNotice = true) :
    e.deeds = [.handled e] := by
  cases e with
  | event | reload | shutdown => cases h
  | loaded | unloaded | trouble => rfl

theorem Envelope.flatMap_deeds_of_isNotice {es : List Envelope}
    (h : ∀ e ∈ es, e.isNotice = true) : es.flatMap deeds = es.map .handled := by
  rw [← List.flatMap_singleton' (es.map Deed.handled), List.flatMap_map]
  exact List.flatMap_congr fun e he => deeds_of_isNotice (h e he)

theorem Host.isNotice_of_mem_envelopesOf {o : Occurrence} {e : Envelope}
    (h : e ∈ Host.envelopesOf o) : e.isNotice = true := by
  cases o with
  | reported problem census =>
    cases hs : problem.script? with
    | none => simp [envelopesOf, hs] at h
    | some script =>
      simp only [envelopesOf, hs, List.mem_singleton] at h
      subst h
      rfl
  | scriptLoaded | scriptUnloaded =>
    obtain rfl := List.mem_singleton.1 h
    rfl
  | _ => cases h

/-- Whatever happens puts nothing but notices into the queue. -/
theorem Happening.isNotice_of_mem_envelopes {h : Happening} {e : Envelope}
    (he : e ∈ h.envelopes) : e.isNotice = true := by
  cases h with
  | inner o => exact Host.isNotice_of_mem_envelopesOf he
  | said => cases he

namespace Runtime

variable [Structure σ] {env : Surroundings σ}

/-- In a scope that never fails, nothing but a problem keeps a batch from loading. -/
theorem load_ne_panic (hs : env.scope.Untroubled) (rt : Runtime σ) (paths : List Path)
    (text : Option String) : (rt.load env paths).2 ≠ .error (.panic text) := by
  cases hv : rt.registry.violation? [] (Batch.resolved env.files paths) with
  | some violation =>
    rw [load_eq]
    simp only [hv]
    nofun
  | none =>
    obtain ⟨tally, ht⟩ := (load_ok_iff rt env paths).2 ((runs_iff hs).2 hv)
    rw [ht]
    nofun

theorem reloadDirectory_ne_panic (hs : env.scope.Untroubled) (rt : Runtime σ) (root : Path)
    (text : Option String) : (rt.reloadDirectory env root).2 ≠ .error (.panic text) := by
  have hload : ((rt.unloadAll env.files).1.loadDirectory env root).2 ≠ .error (.panic text) :=
    load_ne_panic hs _ _ text
  simp only [reloadDirectory]
  split
  · next heq =>
    rw [heq] at hload
    exact hload
  · nofun

end Runtime

namespace Host

variable {host next : Host σ}

/-! ## What is added -/

/-- What happens is recorded behind all else, and the envelopes that it makes come last in the
queue; no request is made or taken away. -/
structure Grows (host next : Host σ) (happenings : List Happening) : Prop where
  trace : next.trace = host.trace ++ happenings
  queue : next.queue = host.queue ++ happenings.flatMap Happening.envelopes
  reloadRequested : next.reloadRequested = host.reloadRequested
  stopping : next.stopping = host.stopping

theorem Grows.refl (host : Host σ) : Grows host host [] := by
  constructor <;> simp

theorem Grows.trans {last : Host σ} {first second : List Happening} (h : Grows host next first)
    (h' : Grows next last second) : Grows host last (first ++ second) where
  trace := by rw [h'.trace, h.trace, List.append_assoc]
  queue := by rw [h'.queue, h.queue, List.flatMap_append, List.append_assoc]
  reloadRequested := h'.reloadRequested.trans h.reloadRequested
  stopping := h'.stopping.trans h.stopping

theorem grows_say (host : Host σ) (level : Log.Level) (message : String) :
    Grows host (host.say level message) [.said (Happening.runner level message)] where
  trace := rfl
  queue := (List.append_nil _).symm
  reloadRequested := rfl
  stopping := rfl

theorem grows_take (host : Host σ) (rt : Runtime σ) :
    Grows host (host.take rt) (rt.trace.map .inner) where
  trace := rfl
  queue := by
    rw [List.flatMap_map]
    rfl
  reloadRequested := rfl
  stopping := rfl

theorem exists_grows_deliverAt (event : Event) : ∀ (tiers : List Tier) (host : Host σ),
    ∃ happenings, Grows host (host.deliverAt event tiers).1 happenings
  | [], host => ⟨[], .refl host⟩
  | tier :: rest, host => by
    have htake := grows_take host (host.runtime.dispatch event tier).1
    obtain ⟨more, hmore⟩ := exists_grows_deliverAt event rest
      (host.take (host.runtime.dispatch event tier).1)
    exact ⟨_, htake.trans hmore⟩

theorem exists_grows_deliver (host : Host σ) (event : Event) :
    ∃ happenings, Grows host (host.deliver event).1 happenings := by
  unfold deliver
  split
  · exact ⟨_, grows_say ..⟩
  · exact exists_grows_deliverAt event _ host

/-- What handling an envelope adds, apart from the requests. -/
theorem exists_grows_event (host : Host σ) (event : Event) :
    ∃ happenings, Grows host (host.handle (.event event)) happenings := by
  obtain ⟨happenings, h⟩ := exists_grows_deliver host event
  exact ⟨_, h.trans (grows_say ..)⟩

variable [Structure σ] {env : Surroundings σ}

theorem exists_grows_reload (host : Host σ) (env : Surroundings σ) :
    ∃ happenings, Grows host (host.reload env).1 happenings :=
  ⟨_, (grows_say host .info s!"Reloading scripts from {host.scriptDir.text}").trans
    (grows_take _ _)⟩

/-! ## Deeds -/

/-- The host has done the deeds one after another. Nothing is handled while a reload is asked for,
and nothing is reloaded unless it is; a reload that fails is logged. -/
inductive Works (env : Surroundings σ) : Host σ → List Deed → Host σ → Prop
  | done (host : Host σ) : Works env host [] host
  | handled {host last : Host σ} {envelope : Envelope} {rest : List Envelope} {deeds : List Deed} :
    host.reloadRequested = false → host.queue = envelope :: rest →
    Works env ({ host with queue := rest }.handle envelope) deeds last →
    Works env host (.handled envelope :: deeds) last
  | reloaded {host next last : Host σ} {t : Tally} {deeds : List Deed} :
    host.reloadRequested = true →
    { host with reloadRequested := false }.reload env = (next, .ok t) →
    Works env (next.say .info
      s!"Reloaded {t.files} script(s) with {t.structures} structure(s)") deeds last →
    Works env host (.reloaded :: deeds) last
  | refused {host next last : Host σ} {p : Problem} {deeds : List Deed} :
    host.reloadRequested = true →
    { host with reloadRequested := false }.reload env = (next, .error (.problem p)) →
    Works env (next.say .error s!"Script reload failed: {p.message}") deeds last →
    Works env host (.reloaded :: deeds) last

theorem Works.trans {last : Host σ} {first second : List Deed} (h : Works env host first next)
    (h' : Works env next second last) : Works env host (first ++ second) last := by
  induction h with
  | done => exact h'
  | handled hr hq _ ih => exact .handled hr hq (ih h')
  | reloaded hr hreload _ ih => exact .reloaded hr hreload (ih h')
  | refused hr hreload _ ih => exact .refused hr hreload (ih h')

/-- **The deeds determine the state** that they lead to. -/
theorem Works.unique {last last' : Host σ} {deeds : List Deed} (h : Works env host deeds last)
    (h' : Works env host deeds last') : last = last' := by
  induction h with
  | done =>
    cases h'
    rfl
  | handled _ hq _ ih =>
    cases h' with
    | handled _ hq' hrest =>
      cases hq.symm.trans hq'
      exact ih hrest
  | reloaded _ hreload _ ih =>
    cases h' with
    | reloaded _ hreload' hrest =>
      cases hreload.symm.trans hreload'
      exact ih hrest
    | refused _ hreload' => cases hreload.symm.trans hreload'
  | refused _ hreload _ ih =>
    cases h' with
    | reloaded _ hreload' => cases hreload.symm.trans hreload'
    | refused _ hreload' hrest =>
      cases hreload.symm.trans hreload'
      exact ih hrest

/-- A reload that is due is one deed; it takes the request away. -/
theorem works_serveReload (hs : env.scope.Untroubled) (h : host.reloadRequested = true) :
    Works env host [.reloaded] (host.serveReload env) ∧
      ∃ happenings, Grows { host with reloadRequested := false } (host.serveReload env)
        happenings := by
  obtain ⟨happenings, hgrows⟩ := exists_grows_reload { host with reloadRequested := false } env
  rcases hreload : { host with reloadRequested := false }.reload env with ⟨next, result⟩
  rw [hreload] at hgrows
  unfold serveReload
  rw [if_pos h, hreload]
  cases result with
  | ok t => exact ⟨.reloaded h hreload (.done _), _, hgrows.trans (grows_say ..)⟩
  | error e =>
    cases e with
    | problem p => exact ⟨.refused h hreload (.done _), _, hgrows.trans (grows_say ..)⟩
    | panic text =>
      exact absurd (congrArg Prod.snd hreload)
        (Runtime.reloadDirectory_ne_panic hs host.runtime host.scriptDir text)

theorem serveReload_of_not_requested (h : host.reloadRequested = false) :
    host.serveReload env = host := by
  simp [serveReload, h]

/-! ## Turns -/

/-- The host has worked off the envelopes that were first in its queue, with `rest` behind them:
what is to be done about them has been done, and the envelopes that this has made lie behind the
rest. -/
structure Worked (env : Surroundings σ) (host : Host σ) (es rest : List Envelope)
    (happenings : List Happening) (last : Host σ) : Prop where
  works : Works env host (es.flatMap Envelope.deeds) last
  trace : last.trace = host.trace ++ happenings
  queue : last.queue = rest ++ happenings.flatMap Happening.envelopes

/-- Turns of the loop have worked off envelopes, and the loop goes on from where they have come
to. -/
structure Turns (env : Surroundings σ) (host : Host σ) (es rest : List Envelope)
    (happenings : List Happening) (last : Host σ) : Prop
    extends Worked env host es rest happenings last where
  served : last.reloadRequested = false
  stopping : last.stopping = true ↔ .shutdown ∈ es ∨ host.stopping = true
  /-- Notices make no envelopes. -/
  quiet : (∀ e ∈ es, e.isNotice = true) → happenings.flatMap Happening.envelopes = []
  drain : last.drain env = host.drain env
  serve : host.stopping = false → .shutdown ∉ es → last.serve env = host.serve env

theorem drain_nil (h : host.queue = []) : host.drain env = host := by
  rw [drain]
  split
  · rfl
  · next hq => cases h.symm.trans hq

theorem drain_cons {e : Envelope} {rest : List Envelope} (h : host.queue = e :: rest) :
    host.drain env = (host.handleNext env e rest).drain env := by
  rw [drain]
  split
  · next hq => cases h.symm.trans hq
  · next hq =>
    cases h.symm.trans hq
    rfl

theorem serve_cons {e : Envelope} {rest : List Envelope} (h : host.queue = e :: rest)
    (hstop : host.stopping = false) :
    host.serve env = (host.handleNext env e rest).serve env := by
  rw [serve]
  split
  · next hq => cases h.symm.trans hq
  · next hq =>
    cases h.symm.trans hq
    rw [if_neg (by simp [hstop])]

theorem serve_of_stopping (h : host.stopping = true) : host.serve env = host := by
  rw [serve]
  split
  · rfl
  · rw [if_pos h]

/-- **What a turn does and adds.** The envelope is handled, and if it asks for a reload, there is
one before the turn is over. -/
theorem works_handleNext (hs : env.scope.Untroubled) {e : Envelope} {rest : List Envelope}
    (hq : host.queue = e :: rest) (hr : host.reloadRequested = false) :
    Works env host e.deeds (host.handleNext env e rest) ∧
      ∃ happenings, (e.isNotice = true → happenings.flatMap Happening.envelopes = []) ∧
        Grows { host with queue := rest, stopping := decide (e = .shutdown) || host.stopping }
          (host.handleNext env e rest) happenings := by
  -- a turn that asks for no reload is over when the envelope has been handled
  have hhandled : ({ host with queue := rest }.handle e).reloadRequested = false →
      host.handleNext env e rest = { host with queue := rest }.handle e ∧
        Works env host [.handled e] ({ host with queue := rest }.handle e) :=
    fun h => ⟨serveReload_of_not_requested h, .handled hr hq (.done _)⟩
  cases e with
  | event event =>
    obtain ⟨happenings, hgrows⟩ := exists_grows_event { host with queue := rest } event
    obtain ⟨hnext, hworks⟩ := hhandled (hgrows.reloadRequested.trans hr)
    rw [hnext]
    exact ⟨hworks, happenings, nofun, hgrows⟩
  | reload =>
    have hrequested : ({ host with queue := rest }.handle .reload).reloadRequested = true := rfl
    obtain ⟨hworks, happenings, hgrows⟩ := works_serveReload hs hrequested
    refine ⟨.handled hr hq hworks, happenings, nofun, ?_⟩
    exact ⟨hgrows.trace, hgrows.queue, hgrows.reloadRequested.trans hr.symm, hgrows.stopping⟩
  | shutdown =>
    obtain ⟨hnext, hworks⟩ := hhandled hr
    rw [hnext]
    exact ⟨hworks, [], nofun, .refl _⟩
  | loaded | unloaded | trouble =>
    obtain ⟨hnext, hworks⟩ := hhandled hr
    rw [hnext]
    exact ⟨hworks, [.said _], fun _ => rfl, grows_say ..⟩

theorem exists_turns_handleNext (hs : env.scope.Untroubled) {e : Envelope} {rest : List Envelope}
    (hq : host.queue = e :: rest) (hr : host.reloadRequested = false) :
    ∃ happenings, Turns env host [e] rest happenings (host.handleNext env e rest) := by
  obtain ⟨hworks, happenings, hquiet, hgrows⟩ := works_handleNext hs hq hr
  exact ⟨happenings, {
    works := by simpa using hworks
    trace := hgrows.trace
    queue := hgrows.queue
    served := hgrows.reloadRequested.trans hr
    stopping := by
      rw [hgrows.stopping, Bool.or_eq_true, decide_eq_true_iff, List.mem_singleton, eq_comm]
    quiet := fun h => hquiet (h e List.mem_cons_self)
    drain := (drain_cons hq).symm
    serve := fun hstop _ => (serve_cons hq hstop).symm }⟩

theorem Turns.nil (hr : host.reloadRequested = false) :
    Turns env host [] host.queue [] host where
  works := .done host
  trace := (List.append_nil _).symm
  queue := (List.append_nil _).symm
  served := hr
  stopping := by simp
  quiet _ := rfl
  drain := rfl
  serve _ _ := rfl

/-- Turns go on with what lay behind the first envelopes; what these have made is last. -/
theorem Turns.trans {es es' rest : List Envelope} {first second : List Happening} {last : Host σ}
    (h : Turns env host es (es' ++ rest) first next)
    (h' : Turns env next es' (rest ++ first.flatMap Happening.envelopes) second last) :
    Turns env host (es ++ es') rest (first ++ second) last where
  works := by
    rw [List.flatMap_append]
    exact h.works.trans h'.works
  trace := by rw [h'.trace, h.trace, List.append_assoc]
  queue := by rw [h'.queue, List.flatMap_append, List.append_assoc]
  served := h'.served
  stopping := by rw [h'.stopping, h.stopping, List.mem_append, or_left_comm, or_assoc]
  quiet hall := by
    rw [List.flatMap_append, h.quiet fun e he => hall e (List.mem_append_left _ he),
      h'.quiet fun e he => hall e (List.mem_append_right _ he), List.append_nil]
  drain := h'.drain.trans h.drain
  serve hstop hnone := by
    rw [List.mem_append, not_or] at hnone
    have hnext : next.stopping = false := by
      rw [← Bool.not_eq_true, h.stopping]
      simp [hnone.1, hstop]
    exact (h'.serve hnext hnone.2).trans (h.serve hstop hnone.1)

/-- **The first envelopes are worked off**, whatever lies behind them. -/
theorem exists_turns (hs : env.scope.Untroubled) : ∀ (es : List Envelope) {host : Host σ}
    {rest : List Envelope}, host.queue = es ++ rest → host.reloadRequested = false →
    ∃ happenings last, Turns env host es rest happenings last
  | [], host, rest, hq, hr => by
    obtain rfl : host.queue = rest := hq
    exact ⟨[], host, .nil hr⟩
  | e :: es, host, rest, hq, hr => by
    have hcons : host.queue = e :: (es ++ rest) := hq
    obtain ⟨first, hturn⟩ := exists_turns_handleNext hs hcons hr
    have hnext := hturn.queue
    rw [List.append_assoc] at hnext
    obtain ⟨second, last, hturns⟩ := exists_turns hs es hnext hturn.served
    exact ⟨first ++ second, last, hturn.trans hturns⟩

/-! ## The loops -/

/-- What draining the queue comes to. -/
structure Drained (env : Surroundings σ) (host : Host σ) (happenings : List Happening)
    (handled : Host σ) : Prop where
  /-- Everything that lay in the queue is handled first. -/
  initial : Worked env host host.queue [] happenings handled
  /-- Then comes what this has put there, which is nothing but notices. -/
  notices : ∀ e ∈ handled.queue, e.isNotice = true
  afterwards : Works env handled (handled.queue.map .handled) (host.drain env)
  /-- Nothing is left. -/
  empty : (host.drain env).queue = []

theorem exists_drained (hs : env.scope.Untroubled) (hr : host.reloadRequested = false) :
    ∃ happenings handled, Drained env host happenings handled := by
  obtain ⟨happenings, handled, hturns⟩ :=
    exists_turns hs host.queue (List.append_nil _).symm hr
  have hnotices : ∀ e ∈ handled.queue, e.isNotice = true := by
    rw [hturns.queue, List.nil_append]
    intro e he
    obtain ⟨happening, -, he⟩ := List.mem_flatMap.1 he
    exact Happening.isNotice_of_mem_envelopes he
  obtain ⟨more, last, hmore⟩ :=
    exists_turns hs handled.queue (List.append_nil _).symm hturns.served
  have hempty : last.queue = [] := by rw [hmore.queue, hmore.quiet hnotices, List.append_nil]
  have hlast : last = host.drain env := by
    rw [← hturns.drain, ← hmore.drain, drain_nil hempty]
  have hafter := hmore.works
  rw [Envelope.flatMap_deeds_of_isNotice hnotices] at hafter
  subst hlast
  exact ⟨happenings, handled, hturns.toWorked, hnotices, hafter, hempty⟩

/-- The loop ends with the turn of the first request to stop. -/
theorem exists_stopped (hs : env.scope.Untroubled) (hstop : host.stopping = false)
    (hr : host.reloadRequested = false) {before after : List Envelope}
    (hq : host.queue = before ++ .shutdown :: after) (hfirst : .shutdown ∉ before) :
    ∃ happenings last, Worked env host (before ++ [.shutdown]) after happenings last ∧
      host.serve env = last := by
  obtain ⟨first, next, hturns⟩ := exists_turns hs before hq hr
  obtain ⟨second, hturn⟩ := exists_turns_handleNext hs hturns.queue hturns.served
  have hnext : next.stopping = false := by
    rw [← Bool.not_eq_true, hturns.stopping]
    simp [hfirst, hstop]
  refine ⟨_, _, (Turns.trans hturns hturn).toWorked, ?_⟩
  rw [← hturns.serve hstop hfirst, serve_cons hturns.queue hnext]
  exact serve_of_stopping (hturn.stopping.2 (.inl List.mem_cons_self))

/-- How a host stops: everything is unloaded, and the host says of how many scripts that is. -/
structure Stopped (files : FileSystem) (host last : Host σ) : Prop where
  unloads : ∃ scripts first second, host.runtime.UnloadsAll files scripts first second
    (host.runtime.unloadAll files)
  runtime : last.runtime = { (host.runtime.unloadAll files).1 with trace := [] }
  trace : last.trace = host.trace ++ (host.runtime.unloadAll files).1.trace.map .inner
    ++ [.said (Happening.runner .info
      s!"Script host stopped, unloaded {(host.runtime.unloadAll files).2.files} script(s)")]
  /-- What lies in the queue stays there, and nothing but notices is put behind it. -/
  queue : ∃ notices, last.queue = host.queue ++ notices ∧ ∀ e ∈ notices, e.isNotice = true

theorem stopped_stop (host : Host σ) (files : FileSystem) :
    Stopped files host (host.stop files) := by
  have hgrows := (grows_take host (host.runtime.unloadAll files).1).trans (grows_say _ .info
    s!"Script host stopped, unloaded {(host.runtime.unloadAll files).2.files} script(s)")
  constructor
  case unloads => exact Runtime.exists_unloadsAll host.runtime files
  case runtime => rfl
  case trace => exact hgrows.trace.trans (List.append_assoc ..).symm
  case queue =>
    refine ⟨_, hgrows.queue, fun e he => ?_⟩
    obtain ⟨happening, -, he⟩ := List.mem_flatMap.1 he
    exact Happening.isNotice_of_mem_envelopes he

/-- How a host goes about its queue when nothing is sent to it meanwhile. -/
structure Discipline (env : Surroundings σ) (host : Host σ) : Prop where
  /-- Draining handles what is in the queue and then the notices of that. -/
  drains : ∃ happenings handled, Drained env host happenings handled
  /-- It reloads once for each request. -/
  reloads : (host.queue.flatMap Envelope.deeds).count .reloaded = host.queue.count .reload
  /-- A run handles what is in the queue up to the first request to stop, and then unloads the
  scripts; what lies behind the request stays there. -/
  runs : ∀ before after, host.queue = before ++ .shutdown :: after → .shutdown ∉ before →
    ∃ happenings last, Worked env host (before ++ [.shutdown]) after happenings last ∧
      host.run env = last.stop env.files ∧ Stopped env.files last (host.run env)

/-- **The discipline of the queue**, from every state in which neither a stop nor a reload has been
asked for, with whatever envelopes in the queue and whatever becomes of the reloads. -/
theorem queue_discipline (grammar : Grammar σ) (files : FileSystem) (schedule : List Nat)
    (host : Host σ) (hstop : host.stopping = false) (hreload : host.reloadRequested = false) :
    Discipline { grammar, files, schedule } host where
  drains := exists_drained untroubled_default hreload
  reloads := Envelope.count_reloaded_deeds host.queue
  runs before after hq hfirst := by
    have hs : ({ grammar, files, schedule } : Surroundings σ).scope.Untroubled :=
      untroubled_default
    obtain ⟨happenings, last, hworked, hserve⟩ := exists_stopped hs hstop hreload hq hfirst
    have hrun : host.run { grammar, files, schedule } = last.stop files :=
      congrArg (·.stop files) hserve
    exact ⟨happenings, last, hworked, hrun, hrun ▸ stopped_stop last files⟩

/-- A fresh host that is asked to reload, to deliver an event, to stop and to reload. -/
def asked : Host Handler :=
  { fresh Demo.catalog ⟨"/a.sk"⟩ 0 with
    queue := [.reload, .event { kind := "join" }, .shutdown, .reload] }

/-- The first reload loads a script, and the notice of that comes behind all requests. -/
theorem queue_discipline_asked :
    ((asked.handleNext { grammar := Demo.grammar, files := oneScript } .reload
        asked.queue.tail).queue = asked.queue.tail ++ [.loaded ⟨"/a.sk"⟩ 1] ∧
      asked.stopping = false ∧ asked.reloadRequested = false) ∧
    Discipline { grammar := Demo.grammar, files := oneScript } asked := by
  refine ⟨⟨?_, rfl, rfl⟩, queue_discipline Demo.grammar oneScript [] asked rfl rfl⟩
  simp only [asked, fresh, handleNext, handle, serveReload, reload, say, Runtime.reloadDirectory,
    Runtime.loadDirectory, Runtime.scan, discover_oneScript]
  cbv

end Host

end EventScripts
