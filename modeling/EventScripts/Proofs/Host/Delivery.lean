import EventScripts.Proofs.Host.Agreement
import EventScripts.Proofs.Loader.Asked
import EventScripts.Proofs.Router.Delivery
/-!
# Delivery past a table of listeners

A host keeps a table of the channels that it listens on, and does not even ask
the router about an event at a tier that it does not listen on. The table is kept
by the requests of the router alone, which come one at a time while scripts are
loaded, turned away, unloaded and loaded again. `filtered_delivery` says that
the table never falls out of step with the router, so that the filter drops
nothing: delivery is what firing the event would be.

The host here has structures of any type; whoever has its loader may work with
it in between.
-/

namespace EventScripts

open HostCall

namespace Happening

/-- The identity of the trigger that runs. -/
def executed? : Happening → Option TriggerId
  | inner occurrence => occurrence.executed?
  | said _ => none

end Happening

namespace Host

variable {σ : Type}

/-! ## The table of listeners -/

theorem nodup_listen {listening : List Channel} (h : listening.Nodup) (o : Occurrence) :
    (listen listening o).Nodup := by
  unfold listen
  split
  · next c =>
    split
    · exact h
    · next hc =>
      refine List.nodup_append.2 ⟨h, List.nodup_singleton c, ?_⟩
      rintro a ha _ hb rfl
      rw [List.mem_singleton.1 hb] at ha
      exact hc (List.contains_iff_mem.2 ha)
  · exact h.filter _
  · exact h

theorem nodup_foldl_listen : ∀ (os : List Occurrence) {listening : List Channel},
    listening.Nodup → (os.foldl listen listening).Nodup
  | [], _, h => h
  | o :: os, _, h => nodup_foldl_listen os (nodup_listen h o)

/-- A request about another channel does not change whether a channel is in the table. -/
theorem mem_listen_of_ne {c : Channel} {call : HostCall} (h : call.channel ≠ c)
    (listening : List Channel) : c ∈ listen listening (.host call) ↔ c ∈ listening := by
  cases call with
  | listen d =>
    have hd : c ≠ d := Ne.symm h
    simp only [listen]
    split
    · exact Iff.rfl
    · simp [hd]
  | stop d =>
    have hd : c ≠ d := Ne.symm h
    simp [listen, hd]

/-- The request that is due changes whether a channel is in the table. -/
theorem mem_listen_next {c : Channel} {listening : List Channel} {before : Bool}
    (h : c ∈ listening ↔ before = true) :
    c ∈ listen listening (.host (next c before)) ↔ (!before) = true := by
  cases before with
  | false =>
    have hc : c ∉ listening := fun hc => Bool.noConfusion (h.1 hc)
    simp [next, listen, hc]
  | true => simp [next, listen]

/-- **The table follows the requests.** As long as those about a channel alternate, the channel is
in the table exactly if it is to be listened on. The induction is on what occurs, requests about
other channels and everything else in between. -/
theorem mem_foldl_listen {c : Channel} {after : Bool} : ∀ (os : List Occurrence)
    {listening : List Channel} {before : Bool},
    Alternates c before (about c (Occurrence.hostCalls os)) after →
    (c ∈ listening ↔ before = true) → (c ∈ os.foldl listen listening ↔ after = true)
  | [], _, _, rfl, h => h
  | o :: os, listening, before, halt, h => by
    rw [List.foldl_cons]
    cases o with
    | host call =>
      by_cases hc : call.channel = c
      · have habout : about c (Occurrence.hostCalls (.host call :: os))
            = call :: about c (Occurrence.hostCalls os) :=
          List.filter_cons_of_pos (by simpa using hc)
        rw [habout] at halt
        obtain ⟨rfl, halt⟩ := halt
        exact mem_foldl_listen os halt (mem_listen_next h)
      · have habout : about c (Occurrence.hostCalls (.host call :: os))
            = about c (Occurrence.hostCalls os) :=
          List.filter_cons_of_neg (by simpa using hc)
        rw [habout] at halt
        exact mem_foldl_listen os halt ((mem_listen_of_ne hc listening).trans h)
    | _ => exact mem_foldl_listen os halt h

/-! ## In step with the router -/

/-- The host has taken over all that its runtime has done, and its table is what the router asks
for. -/
structure Synced (host : Host σ) : Prop where
  quiet : host.runtime.trace = []
  serves : ∃ ts, host.runtime.router.Serves ts
  nodup : host.listening.Nodup
  mem_iff : ∀ c, c ∈ host.listening ↔ host.runtime.router.isListening c = true

variable {host : Host σ} {rt : Runtime σ}

/-- **Taking over a runtime** in which the requests alternate keeps host and router in step. -/
theorem synced_take (h : Synced host) (ha : Runtime.Asked host.runtime rt) :
    Synced (host.take rt) := by
  obtain ⟨hserves, calls, hcalls, halt⟩ := ha
  rw [h.quiet] at hcalls
  constructor
  case quiet => rfl
  case serves => exact hserves
  case nodup => exact nodup_foldl_listen _ h.nodup
  case mem_iff =>
    intro c
    refine mem_foldl_listen rt.trace ?_ (h.mem_iff c)
    rw [hcalls]
    exact halt c

theorem asked_runtime (h : Synced host) : Runtime.Asked host.runtime host.runtime :=
  Runtime.asked_refl h.serves

theorem synced_deliverAt (event : Event) : ∀ (tiers : List Tier) {host : Host σ}, Synced host →
    Synced (host.deliverAt event tiers).1
  | [], _, h => h
  | tier :: rest, host, h => synced_deliverAt event rest (synced_take h
      ((asked_runtime h).undisturbed (Runtime.undisturbed_dispatch host.runtime event tier)))

theorem synced_deliver (event : Event) (h : Synced host) : Synced (host.deliver event).1 := by
  unfold deliver
  split
  · exact ⟨h.quiet, h.serves, h.nodup, h.mem_iff⟩
  · exact synced_deliverAt event _ h

theorem synced_handle (envelope : Envelope) (h : Synced host) : Synced (host.handle envelope) := by
  cases envelope with
  | event event =>
    have hd := synced_deliver event h
    exact ⟨hd.quiet, hd.serves, hd.nodup, hd.mem_iff⟩
  | reload | shutdown | loaded | unloaded | trouble => exact ⟨h.quiet, h.serves, h.nodup, h.mem_iff⟩

variable [Structure σ] {env : Surroundings σ}

theorem synced_load (env : Surroundings σ) (h : Synced host) : Synced (host.load env).1 := by
  unfold load
  split
  · exact synced_take h (Runtime.asked_loadDirectory (asked_runtime h) env _)
  · exact ⟨h.quiet, h.serves, h.nodup, h.mem_iff⟩

theorem synced_reload (env : Surroundings σ) (h : Synced host) : Synced (host.reload env).1 := by
  have hsaid : Synced (host.say .info s!"Reloading scripts from {host.scriptDir.text}") :=
    ⟨h.quiet, h.serves, h.nodup, h.mem_iff⟩
  exact synced_take hsaid (Runtime.asked_reloadDirectory (asked_runtime h) env _)

theorem synced_serveReload (env : Surroundings σ) (h : Synced host) :
    Synced (host.serveReload env) := by
  unfold serveReload
  split
  · have hr : Synced ({ host with reloadRequested := false }.reload env).1 :=
      synced_reload env ⟨h.quiet, h.serves, h.nodup, h.mem_iff⟩
    split
    all_goals
      next heq =>
        rw [heq] at hr
        exact ⟨hr.quiet, hr.serves, hr.nodup, hr.mem_iff⟩
  · exact h

theorem synced_unloadAll (files : FileSystem) (h : Synced host) :
    Synced (host.unloadAll files).1 :=
  synced_take h (Runtime.asked_unloadScripts (asked_runtime h) files _)

theorem synced_stop (files : FileSystem) (h : Synced host) : Synced (host.stop files) := by
  have hu := synced_unloadAll files h
  exact ⟨hu.quiet, hu.serves, hu.nodup, hu.mem_iff⟩

theorem synced_handleNext (env : Surroundings σ) (envelope : Envelope) (rest : List Envelope)
    (h : Synced host) : Synced (host.handleNext env envelope rest) := by
  have hrest : Synced { host with queue := rest } := ⟨h.quiet, h.serves, h.nodup, h.mem_iff⟩
  exact synced_serveReload env (synced_handle envelope hrest)

theorem synced_drain (env : Surroundings σ) (h : Synced host) : Synced (host.drain env) := by
  fun_induction drain host env with
  | case1 => exact h
  | case2 host envelope rest hq ih => exact ih (synced_handleNext env envelope rest h)

theorem synced_serve (env : Surroundings σ) (h : Synced host) : Synced (host.serve env) := by
  fun_induction serve host env with
  | case1 | case2 => exact h
  | case3 host envelope rest hq hstop ih => exact ih (synced_handleNext env envelope rest h)

theorem synced_runUntilShutdown (env : Surroundings σ) (h : Synced host) :
    Synced (host.runUntilShutdown env) := by
  have hs := synced_serve env h
  unfold runUntilShutdown
  simp only
  split
  · exact synced_stop env.files hs
  · exact synced_stop env.files ⟨hs.quiet, hs.serves, hs.nodup, hs.mem_iff⟩

/-! ## Runs -/

/-- A move of a host, or of whoever works with its loader. Grammar, files, scope and schedule may
be others at every move. -/
inductive Move : Host σ → Host σ → Prop
  | load (host : Host σ) (env : Surroundings σ) : Move host (host.load env).1
  | reload (host : Host σ) (env : Surroundings σ) : Move host (host.reload env).1
  | unloadAll (host : Host σ) (files : FileSystem) : Move host (host.unloadAll files).1
  | stop (host : Host σ) (files : FileSystem) : Move host (host.stop files)
  | send (host : Host σ) (envelope : Envelope) : Move host (host.send envelope)
  | signal (host : Host σ) : Move host host.signal
  | deliver (host : Host σ) (event : Event) : Move host (host.deliver event).1
  | handle (host : Host σ) (envelope : Envelope) : Move host (host.handle envelope)
  /-- The first envelope is handled; a reload that it asks for is not yet served. -/
  | next {host : Host σ} {envelope : Envelope} {rest : List Envelope} :
    host.queue = envelope :: rest → Move host ({ host with queue := rest }.handle envelope)
  | serveReload (host : Host σ) (env : Surroundings σ) : Move host (host.serveReload env)
  | drain (host : Host σ) (env : Surroundings σ) : Move host (host.drain env)
  | serve (host : Host σ) (env : Surroundings σ) : Move host (host.serve env)
  | run (host : Host σ) (env : Surroundings σ) : Move host (host.run env)
  | runUntilShutdown (host : Host σ) (env : Surroundings σ) :
    Move host (host.runUntilShutdown env)
  | loader {host : Host σ} {rt : Runtime σ} :
    Runtime.Step host.runtime rt → Move host (host.take rt)

/-- The states of a host between its moves. -/
inductive Reached (catalog : Catalog) : Host σ → Prop
  | fresh (scriptDir : Path) (workers : Nat) : Reached catalog
      { runtime := { router := { catalog }, workers }, scriptDir }
  | move {host after : Host σ} : Reached catalog host → Move host after → Reached catalog after

theorem synced_move {after : Host σ} (hm : Move host after) (h : Synced host) : Synced after := by
  cases hm with
  | load env => exact synced_load env h
  | reload env => exact synced_reload env h
  | unloadAll files => exact synced_unloadAll files h
  | stop files => exact synced_stop files h
  | send | signal => exact ⟨h.quiet, h.serves, h.nodup, h.mem_iff⟩
  | deliver event => exact synced_deliver event h
  | handle envelope => exact synced_handle envelope h
  | next => exact synced_handle _ ⟨h.quiet, h.serves, h.nodup, h.mem_iff⟩
  | serveReload env => exact synced_serveReload env h
  | drain env => exact synced_drain env h
  | serve env => exact synced_serve env h
  | run env => exact synced_stop env.files (synced_serve env h)
  | runUntilShutdown env => exact synced_runUntilShutdown env h
  | loader hs => exact synced_take h (Runtime.asked_step hs (asked_runtime h))

/-- **A host is always in step** with its router. -/
theorem synced_of_reached {catalog : Catalog} (h : Reached catalog host) : Synced host := by
  induction h with
  | fresh scriptDir workers =>
    refine ⟨rfl, ⟨[], Router.serves_nil catalog⟩, List.nodup_nil, fun c => ?_⟩
    exact ⟨nofun, nofun⟩
  | move _ hm ih => exact synced_move hm ih

end Host

/-! ## Delivery -/

/-- Nothing runs at a channel without triggers. -/
theorem Router.dispatch_of_not_listening {router : Router} {event : Event} {list : Nat}
    {tier : Tier} (hlist : router.catalog.list? event.kind = some list)
    (h : router.isListening ⟨list, tier⟩ = false) : router.dispatch event tier = [] := by
  have hbound : router.bound ⟨list, tier⟩ = [] := by
    have hc : (⟨list, tier⟩ : Channel) ∉ router.bindings.map (·.channel) := by
      simpa [Router.isListening_eq] using h
    rw [Router.bound_eq, Router.boundIn_of_not_mem hc]
  unfold Router.dispatch Router.targets
  rw [hlist]
  simp [hbound]

namespace Host

variable {σ : Type} {host : Host σ} {event : Event}

/-- A run is seen as one run of its trigger. -/
theorem executed_executions (census : Census) : ∀ es : List Execution,
    (es.flatMap (Execution.occurrences census)).filterMap Occurrence.executed?
      = es.map (·.trigger.id)
  | [] => rfl
  | e :: es => by
    have hremarks : (e.remarks.map Occurrence.remarked).filterMap Occurrence.executed? = [] :=
      List.filterMap_eq_nil_iff.2 fun o ho => by
        obtain ⟨r, -, rfl⟩ := List.mem_map.1 ho
        rfl
    have hproblem : (e.problem?.map (Occurrence.reported · census)).toList.filterMap
        Occurrence.executed? = [] := by
      cases e.problem? <;> rfl
    have hrun : (e.occurrences census).filterMap Occurrence.executed? = [e.trigger.id] := by
      rw [Execution.occurrences, List.filterMap_append, hproblem, List.append_nil]
      exact congrArg (e.trigger.id :: ·) hremarks
    rw [List.flatMap_cons, List.filterMap_append, executed_executions census es, hrun]
    rfl

/-- Delivering at tiers in turn is taking over what they come to together. The trace of the
runtime is taken over and emptied each time. -/
theorem deliverAt_eq (event : Event) : ∀ (tiers : List Tier) {host : Host σ},
    host.runtime.trace = [] →
    host.deliverAt event tiers
      = (host.take (host.runtime.record
          ((tiers.flatMap (host.runtime.router.dispatch event)).flatMap
            (Execution.occurrences host.runtime.registry.census))),
        (tiers.flatMap (host.runtime.router.dispatch event)).length)
  | [], host, h => by
    have hself : host.take (host.runtime.record []) = host := by
      obtain ⟨⟨_, _, _, _, trace⟩, _⟩ := host
      obtain rfl : trace = [] := h
      simp [take, Runtime.record]
    rw [deliverAt, List.flatMap_nil, List.flatMap_nil, hself, List.length_nil]
  | tier :: rest, host, h => by
    have hrest := deliverAt_eq event rest
      (show (host.take (host.runtime.dispatch event tier).1).runtime.trace = [] from rfl)
    simp only [deliverAt, hrest, List.flatMap_cons, List.length_append, List.flatMap_append]
    refine Prod.ext ?_ rfl
    simp only [take, Runtime.dispatch, Runtime.record, h, List.nil_append, List.foldl_append,
      List.flatMap_append, List.map_append, List.append_assoc]

/-- Leaving out what contributes nothing makes no difference. -/
theorem flatMap_filter_of_nil {α β : Type} {p : α → Bool} {f : α → List β} : ∀ {xs : List α},
    (∀ a ∈ xs, p a = false → f a = []) → (xs.filter p).flatMap f = xs.flatMap f
  | [], _ => rfl
  | a :: xs, h => by
    have ih := flatMap_filter_of_nil fun b hb => h b (List.mem_cons_of_mem a hb)
    cases hp : p a with
    | true => rw [List.filter_cons_of_pos hp, List.flatMap_cons, List.flatMap_cons, ih]
    | false =>
      rw [List.filter_cons_of_neg (by simp [hp]), List.flatMap_cons, h a List.mem_cons_self hp, ih,
        List.nil_append]

/-- What the filter leaves out would have run nothing. -/
theorem flatMap_listening (h : Synced host) {list : Nat}
    (hlist : host.runtime.router.catalog.list? event.kind = some list) :
    (Tier.all.filter fun t => host.listening.contains ⟨list, t⟩).flatMap
        (host.runtime.router.dispatch event)
      = host.runtime.router.fire event := by
  refine flatMap_filter_of_nil fun tier _ hc => Router.dispatch_of_not_listening hlist ?_
  simpa [h.mem_iff] using hc

/-- Delivering an event of a declared kind is taking over what firing it comes to. -/
theorem deliver_of_known (h : Synced host)
    (hc : host.runtime.router.catalog.contains event.kind = true) :
    host.deliver event = (host.take (host.runtime.fire event).1, (host.runtime.fire event).2) := by
  rw [← Catalog.isSome_list?, Option.isSome_iff_exists] at hc
  obtain ⟨list, hlist⟩ := hc
  simp only [deliver, hlist, deliverAt_eq event _ h.quiet, flatMap_listening h hlist]
  rfl

/-- An event of another kind is dropped. Firing it would run nothing. -/
theorem deliver_of_unknown (hc : host.runtime.router.catalog.contains event.kind = false) :
    host.deliver event = (host.say .warn s!"Dropping event of unknown kind {event.kind}", 0) ∧
      host.runtime.router.fire event = [] := by
  rw [← Catalog.isSome_list?, Option.isSome_eq_false_iff, Option.isNone_iff_eq_none] at hc
  constructor
  · simp only [deliver, hc]
  · exact List.flatMap_eq_nil_iff.2 fun tier _ => by simp [Router.dispatch, Router.targets, hc]

theorem executed_fire (h : Synced host) (event : Event) :
    (host.runtime.fire event).1.trace.filterMap Occurrence.executed?
      = (host.runtime.router.fire event).map (·.trigger.id) := by
  show (host.runtime.trace ++ _).filterMap _ = _
  rw [h.quiet, List.nil_append, executed_executions]

theorem executed_take (host : Host σ) (rt : Runtime σ) :
    (host.take rt).trace.filterMap Happening.executed?
      = host.trace.filterMap Happening.executed? ++ rt.trace.filterMap Occurrence.executed? := by
  show (host.trace ++ rt.trace.map Happening.inner).filterMap Happening.executed? = _
  rw [List.filterMap_append, List.filterMap_map]
  rfl

theorem executed_say (host : Host σ) (level : Log.Level) (text : String) :
    (host.say level text).trace.filterMap Happening.executed?
      = host.trace.filterMap Happening.executed? := by
  show (host.trace ++ [Happening.said _]).filterMap _ = _
  rw [List.filterMap_append]
  exact List.append_nil _

/-- What the host itself says about an event that it is given. -/
def remarksOn (catalog : Catalog) (event : Event) : List Happening :=
  if catalog.contains event.kind then []
  else [.said (Happening.runner .warn s!"Dropping event of unknown kind {event.kind}")]

/-- **What a delivery comes to**: the triggers run that are due of those that the router serves, and
nothing else happens. -/
theorem deliver_of_serves {ts : List Trigger} (h : Synced host)
    (hs : host.runtime.router.Serves ts) (event : Event) :
    (host.deliver event).2 = (dueInTurn host.runtime.router.catalog ts event).length ∧
      (host.deliver event).1.trace
        = host.trace ++ remarksOn host.runtime.router.catalog event
          ++ ((dueInTurn host.runtime.router.catalog ts event).flatMap fun t =>
            (Router.run event t).occurrences host.runtime.registry.census).map .inner := by
  have hfire := hs.fire event
  unfold remarksOn
  cases hc : host.runtime.router.catalog.contains event.kind with
  | true =>
    rw [deliver_of_known h hc]
    constructor
    · show (host.runtime.router.fire event).length = _
      rw [hfire, List.length_map]
    · show host.trace ++ (host.runtime.trace ++ (host.runtime.router.fire event).flatMap
        (Execution.occurrences host.runtime.registry.census)).map Happening.inner = _
      rw [h.quiet, List.nil_append, hfire, List.flatMap_map, if_pos rfl, List.append_nil]
  | false =>
    obtain ⟨hdropped, hnone⟩ := deliver_of_unknown hc
    rw [hnone] at hfire
    have hnothing := List.map_eq_nil_iff.1 hfire.symm
    rw [hdropped, hnothing]
    exact ⟨rfl, (List.append_nil _).symm⟩

theorem router_deliverAt (event : Event) : ∀ (tiers : List Tier) (host : Host σ),
    (host.deliverAt event tiers).1.runtime.router = host.runtime.router
  | [], _ => rfl
  | tier :: rest, host => by
    have hrest := router_deliverAt event rest (host.take (host.runtime.dispatch event tier).1)
    exact hrest

/-- Events do not change which triggers are bound. -/
theorem router_deliver (host : Host σ) (event : Event) :
    (host.deliver event).1.runtime.router = host.runtime.router := by
  unfold deliver
  split
  · rfl
  · exact router_deliverAt event _ host

/-- What delivery is to firing, of an event in a state of a host. -/
structure Filtered (host : Host σ) (event : Event) : Prop where
  /-- The host listens on the channels that have bindings, on each of them once. -/
  listening : host.listening.Perm (host.runtime.router.bindings.map (·.channel))
  once : (host.runtime.router.bindings.map (·.channel)).Nodup
  /-- The numbers are the same. -/
  ran : (host.deliver event).2 = (host.runtime.fire event).2
  /-- The same triggers run, in the same order. -/
  delivered : (host.deliver event).1.trace.filterMap Happening.executed?
    = host.trace.filterMap Happening.executed?
      ++ (host.runtime.router.fire event).map (·.trigger.id)
  fired : (host.runtime.fire event).1.trace.filterMap Occurrence.executed?
    = (host.runtime.router.fire event).map (·.trigger.id)
  /-- For an event of a declared kind, nothing else is different either. -/
  known : host.runtime.router.catalog.contains event.kind = true →
    host.deliver event = (host.take (host.runtime.fire event).1, (host.runtime.fire event).2)
  /-- An event of another kind is dropped, and would have run nothing. -/
  unknown : host.runtime.router.catalog.contains event.kind = false →
    host.deliver event = (host.say .warn s!"Dropping event of unknown kind {event.kind}", 0) ∧
      host.runtime.fire event = (host.runtime, 0)

/-- **Filtered delivery is full delivery.** In every state of a host, its table of listeners is
that of the channels with bindings, and delivering an event at those tiers only that it listens on
is firing it. -/
theorem filtered_delivery [Structure σ] (catalog : Catalog) (host : Host σ) (event : Event)
    (h : Reached catalog host) : Filtered host event := by
  have hs := synced_of_reached h
  obtain ⟨ts, hserves⟩ := hs.serves
  constructor
  case listening =>
    refine (List.perm_ext_iff_of_nodup hs.nodup hserves.channels).2 fun c => ?_
    rw [hs.mem_iff, Router.isListening_eq, decide_eq_true_iff]
  case once => exact hserves.channels
  case fired => exact executed_fire hs event
  case known => exact deliver_of_known hs
  case unknown =>
    intro hc
    obtain ⟨hdropped, hnone⟩ := deliver_of_unknown hc
    exact ⟨hdropped, by simp [Runtime.fire, hnone, Runtime.record]⟩
  case ran =>
    cases hc : host.runtime.router.catalog.contains event.kind with
    | true => rw [deliver_of_known hs hc]
    | false =>
      obtain ⟨hdropped, hnone⟩ := deliver_of_unknown hc
      rw [hdropped, Runtime.fire, hnone, List.length_nil]
  case delivered =>
    cases hc : host.runtime.router.catalog.contains event.kind with
    | true => rw [deliver_of_known hs hc, executed_take, executed_fire hs]
    | false =>
      obtain ⟨hdropped, hnone⟩ := deliver_of_unknown hc
      rw [hdropped, hnone, executed_say, List.map_nil, List.append_nil]

theorem filtered_loaded :
    (loaded.listening.length = 2 ∧ (loaded.deliver { kind := "join" }).2 = 1) ∧
      Filtered loaded { kind := "join" } := by
  constructor
  · simp only [loaded, Host.load, Runtime.loadDirectory, Runtime.scan, discover_oneScript]
    cbv
  · exact filtered_delivery Demo.catalog loaded { kind := "join" }
      (.move (.fresh ⟨"/a.sk"⟩ 0) (.load _ ⟨Demo.grammar, oneScript, {}, []⟩))

end Host

end EventScripts
