import EventScripts.Loader.Runtime
import EventScripts.Proofs.Loader.Seen
import EventScripts.Proofs.Router.History
/-!
# Delivery after a history

Which triggers an event runs, read off the history of the router and not off its
bindings: `due` filters the triggers that the history has bound for good.
`delivery_of_history` says that an event runs exactly these, in their order, and
what is seen of it: one run of each, whatever becomes of the others, and one
report of each that faults. A run is told by its statements, which come in their
order up to the first that ends the chain or faults (`ChainRun`).

`SPEC_FULL.md` §4.5 has the order and the filter, §8 which triggers are invoked.
-/

namespace EventScripts

/-- An event reaches triggers: its kind is declared, and it is not blocked or else its kind listens
to blocked events. -/
def Catalog.delivers (catalog : Catalog) (event : Event) : Bool :=
  catalog.contains event.kind && (!event.blocked || catalog.listensBlocked event.kind)

/-- The trigger is at the tier, one of its kinds shares the handler list of the event's kind, one
is that kind or an ancestor of it, and the trigger accepts the event. -/
def Trigger.isDue (catalog : Catalog) (event : Event) (tier : Tier) (t : Trigger) : Bool :=
  t.tier == tier && t.kinds.any (fun kind => catalog.list? kind == catalog.list? event.kind)
    && t.kinds.any (catalog.isA event.kind ·) && t.accepts event

/-- Those of some triggers that are to run for an event at a tier, in their order. -/
def due (catalog : Catalog) (ts : List Trigger) (event : Event) (tier : Tier) : List Trigger :=
  if catalog.delivers event then ts.filter (Trigger.isDue catalog event tier) else []

/-- Those to run for an event at all tiers, from the lowest to the highest. -/
def dueInTurn (catalog : Catalog) (ts : List Trigger) (event : Event) : List Trigger :=
  Tier.all.flatMap (due catalog ts event)

/-! ## Chains -/

/-- How a chain of statements runs for an event: some let the chain go on, then there may be a last
one; these leave the remarks, and the last one decides how the chain ends. -/
structure ChainRun (event : Event) (body onward : List Statement) (last : Option Statement)
    (remarks : List Remark) (result : Except Fault Unit) : Prop where
  /-- They are the first statements of the chain, in order; the others do not run. -/
  first : onward ++ last.toList <+: body
  remarks : remarks = (onward ++ last.toList).flatMap fun statement => (statement event).remarks
  goesOn : ∀ statement ∈ onward, (statement event).result = .ok true
  /-- The chain is at its end, or the last statement ends it, or the last one faults and so does
  the chain. -/
  ending : match last with
    | none => onward = body ∧ result = .ok ()
    | some statement => (statement event).result = .ok false ∧ result = .ok () ∨
        ∃ fault, (statement event).result = .error fault ∧ result = .error fault

/-- A statement that lets the chain go on runs before the rest. -/
theorem ChainRun.cons {event : Event} {statement : Statement} {body onward : List Statement}
    {last : Option Statement} {remarks : List Remark} {result : Except Fault Unit}
    (hs : (statement event).result = .ok true) (h : ChainRun event body onward last remarks result) :
    ChainRun event (statement :: body) (statement :: onward) last
      ((statement event).remarks ++ remarks) result := by
  constructor
  case first => exact List.cons_prefix_cons.2 ⟨rfl, h.first⟩
  case remarks => rw [h.remarks, List.cons_append, List.flatMap_cons]
  case goesOn => exact List.forall_mem_cons.2 ⟨hs, h.goesOn⟩
  case ending =>
    have hend := h.ending
    cases last with
    | none => exact ⟨congrArg _ hend.1, hend.2⟩
    | some _ => exact hend

/-- **A chain runs up to the first statement that ends it or faults.** -/
theorem exists_chainRun (event : Event) (body : List Statement) : ∃ onward last,
    ChainRun event body onward last (runChain event body).1 (runChain event body).2 := by
  induction body with
  | nil => exact ⟨[], none, List.prefix_refl _, rfl, nofun, rfl, rfl⟩
  | cons statement rest ih =>
    have hfirst : [] ++ (some statement).toList <+: statement :: rest :=
      List.cons_prefix_cons.2 ⟨rfl, List.nil_prefix⟩
    have hremarks : (statement event).remarks
        = ([] ++ (some statement).toList).flatMap fun s : Statement => (s event).remarks := by
      simp
    simp only [runChain]
    cases hs : (statement event).result with
    | error fault =>
      exact ⟨[], some statement, hfirst, hremarks, nofun, Or.inr ⟨fault, hs, rfl⟩⟩
    | ok goesOn =>
      cases goesOn with
      | false => exact ⟨[], some statement, hfirst, hremarks, nofun, Or.inl ⟨hs, rfl⟩⟩
      | true =>
        obtain ⟨onward, last, hrun⟩ := ih
        exact ⟨statement :: onward, last, hrun.cons hs⟩

variable {catalog : Catalog} {ts : List Trigger} {event : Event}

theorem mem_due {tier : Tier} {t : Trigger} (h : t ∈ due catalog ts event tier) :
    t ∈ ts ∧ t.tier = tier := by
  unfold due at h
  split at h
  · obtain ⟨hmem, hdue⟩ := List.mem_filter.1 h
    simp only [Trigger.isDue, Bool.and_eq_true, beq_iff_eq] at hdue
    exact ⟨hmem, hdue.1.1.1⟩
  · cases h

theorem due_sublist (catalog : Catalog) (ts : List Trigger) (event : Event) (tier : Tier) :
    (due catalog ts event tier).Sublist ts := by
  unfold due
  split
  · exact List.filter_sublist
  · exact List.nil_sublist ts

theorem nodup_due (h : (ts.map (·.id)).Nodup) (tier : Tier) :
    ((due catalog ts event tier).map (·.id)).Nodup :=
  h.sublist ((due_sublist catalog ts event tier).map _)

/-- The tiers are delivered in ascending order, each once. -/
theorem Tier.pairwise_all : Tier.all.Pairwise fun a b => a.rank < b.rank := by decide

/-- A trigger is at one tier, so that no event runs it twice. -/
theorem nodup_dueInTurn (h : (ts.map (·.id)).Nodup) :
    ((dueInTurn catalog ts event).map (·.id)).Nodup := by
  rw [dueInTurn, List.map_flatMap, List.nodup_flatMap]
  refine ⟨fun tier _ => nodup_due h tier, Tier.pairwise_all.imp fun {a b} hlt => ?_⟩
  intro id ha hb
  obtain ⟨t, ht, rfl⟩ := List.mem_map.1 ha
  obtain ⟨u, hu, hid⟩ := List.mem_map.1 hb
  obtain ⟨htin, rfl⟩ := mem_due ht
  obtain ⟨huin, rfl⟩ := mem_due hu
  rw [List.inj_on_of_nodup_map h huin htin hid] at hlt
  exact Nat.lt_irrefl _ hlt

/-! ## The router -/

namespace Router

variable {router : Router}

/-- The triggers bound to the channel of an event are those that share its handler list. -/
theorem wants_iff {catalog : Catalog} {t : Trigger} {kind : Kind} {list : Nat} {tier : Tier}
    (h : catalog.list? kind = some list) :
    t.wants catalog ⟨list, tier⟩
      = (t.tier == tier && t.kinds.any fun k => catalog.list? k == catalog.list? kind) := by
  rw [Trigger.wants, h, BEq.comm (a := tier)]

/-- **The triggers that an event runs** at a tier are those of the triggers served that are due. -/
theorem Serves.targets (h : Serves router ts) (event : Event) (tier : Tier) :
    router.targets event tier = due router.catalog ts event tier := by
  unfold Router.targets due
  cases hlist : router.catalog.list? event.kind with
  | none =>
    have hcontains : router.catalog.contains event.kind = false := by
      rw [← Catalog.isSome_list?, hlist, Option.isSome_none]
    simp [Catalog.delivers, hcontains]
  | some list =>
    have hcontains : router.catalog.contains event.kind = true := by
      rw [← Catalog.isSome_list?, hlist, Option.isSome_some]
    have hdelivers : router.catalog.delivers event = router.admits event := by
      rw [Catalog.delivers, hcontains, Bool.true_and, admits]
    rw [hdelivers]
    by_cases hadmitted : router.admits event = true
    · simp only [if_pos hadmitted]
      rw [h.bound, List.filter_filter]
      refine List.filter_congr fun t _ => ?_
      rw [wants_iff hlist, Trigger.isDue, matchesEvent, Bool.and_comm, Bool.and_assoc,
        Bool.and_assoc, Bool.and_assoc]
    · simp only [if_neg hadmitted]

theorem Serves.dispatch (h : Serves router ts) (event : Event) (tier : Tier) :
    router.dispatch event tier = (due router.catalog ts event tier).map (run event) := by
  rw [Router.dispatch, h.targets]

theorem Serves.fire (h : Serves router ts) (event : Event) :
    router.fire event = (dueInTurn router.catalog ts event).map (run event) := by
  rw [Router.fire, dueInTurn, List.map_flatMap]
  exact List.flatMap_congr fun tier _ => h.dispatch event tier

theorem dispatch_history (catalog : Catalog) (ops : List Op) (event : Event) (tier : Tier) :
    (Op.applyAll { catalog } ops).1.dispatch event tier
      = (due catalog (Op.lasting { catalog } ops) event tier).map (run event) := by
  rw [(serves_history catalog ops).dispatch, Op.catalog_applyAll]

theorem fire_history (catalog : Catalog) (ops : List Op) (event : Event) :
    (Op.applyAll { catalog } ops).1.fire event
      = (dueInTurn catalog (Op.lasting { catalog } ops) event).map (run event) := by
  rw [(serves_history catalog ops).fire, Op.catalog_applyAll]

end Router

/-! ## The runtime -/

/-- The identity of the trigger that runs. -/
def Occurrence.executed? : Occurrence → Option TriggerId
  | executed id => some id
  | _ => none

/-- The report of a trigger whose chain faults for an event. -/
def Trigger.report? (event : Event) (t : Trigger) : Option Problem :=
  match (t.execute event).2 with
  | .ok () => none
  | .error fault => some (.phaseFailed .execute t.script t.name (some fault))

/-- What a run of a trigger comes to, whatever other triggers run. -/
structure TriggerRun (census : Census) (event : Event) (t : Trigger) : Prop where
  /-- Its statements run up to the first that ends the chain or faults. -/
  chain : ∃ onward last, ChainRun event t.body onward last (Router.run event t).remarks
    (Router.run event t).result
  /-- It is seen as the execution, the remarks of the statements, and a report if there is one. -/
  seen : (Router.run event t).occurrences census
    = .executed t.id :: (Router.run event t).remarks.map .remarked
      ++ (t.report? event).toList.map (.reported · census)
  fine : (Router.run event t).result = .ok () → t.report? event = none
  faulty : ∀ fault, (Router.run event t).result = .error fault →
    t.report? event = some (.phaseFailed .execute t.script t.name (some fault))

theorem triggerRun (census : Census) (event : Event) (t : Trigger) :
    TriggerRun census event t := by
  constructor
  case chain => exact exists_chainRun event t.body
  case seen =>
    have hproblem : (Router.run event t).problem? = t.report? event := rfl
    rw [Execution.occurrences, hproblem, Option.toList_map]
    rfl
  case fine =>
    intro hresult
    have hexecute : (t.execute event).2 = .ok () := hresult
    rw [Trigger.report?, hexecute]
  case faulty =>
    intro fault hresult
    have hexecute : (t.execute event).2 = .error fault := hresult
    rw [Trigger.report?, hexecute]

/-- What is seen of one run of a trigger. -/
theorem seen_run (census : Census) (event : Event) (t : Trigger) :
    ((Router.run event t).occurrences census).filterMap Occurrence.executed? = [t.id] ∧
      Occurrence.problems ((Router.run event t).occurrences census)
        = (t.report? event).toList := by
  have hremarks : ∀ remarks : List Remark,
      (remarks.map Occurrence.remarked).filterMap Occurrence.executed? = [] ∧
        (remarks.map Occurrence.remarked).filterMap Occurrence.problem? = [] := by
    intro remarks
    constructor <;>
      exact List.filterMap_eq_nil_iff.2 fun o ho => by
        obtain ⟨r, -, rfl⟩ := List.mem_map.1 ho
        rfl
  rw [(triggerRun census event t).seen, Occurrence.problems]
  simp only [List.cons_append, List.filterMap_cons, List.filterMap_append, hremarks]
  cases t.report? event <;> exact ⟨rfl, rfl⟩

namespace Runtime

variable {σ : Type}

/-- What a delivery comes to that runs some triggers in turn: the runtime after it, and the number
that is returned. -/
structure Delivered (rt : Runtime σ) (event : Event) (ts : List Trigger)
    (out : Runtime σ × Nat) : Prop where
  ran : out.2 = ts.length
  /-- Nothing changes but the trace, to which each run adds what its own chain does. -/
  runs : out.1 = rt.record
    (ts.flatMap fun t => (Router.run event t).occurrences rt.registry.census)
  /-- Exactly these triggers are executed, in this order, and none of them twice. -/
  executed : out.1.trace.filterMap Occurrence.executed?
    = rt.trace.filterMap Occurrence.executed? ++ ts.map (·.id)
  once : (ts.map (·.id)).Nodup
  chains : ∀ t ∈ ts, TriggerRun rt.registry.census event t
  /-- One report of each trigger whose chain faults, and no other. -/
  reports : Occurrence.problems out.1.trace
    = Occurrence.problems rt.trace ++ ts.filterMap (Trigger.report? event)

theorem delivered_of_runs (rt : Runtime σ) (event : Event) {ts : List Trigger}
    (h : (ts.map (·.id)).Nodup) :
    Delivered rt event ts (rt.record ((ts.map (Router.run event)).flatMap
      (Execution.occurrences rt.registry.census)), (ts.map (Router.run event)).length) := by
  rw [List.flatMap_map, List.length_map]
  constructor
  case ran => rfl
  case runs => rfl
  case once => exact h
  case chains => exact fun t _ => triggerRun rt.registry.census event t
  case executed =>
    show (rt.trace ++ _).filterMap _ = _
    rw [List.filterMap_append, List.filterMap_flatMap]
    simp only [(seen_run _ event _).1]
    rw [← List.map_eq_flatMap]
  case reports =>
    show Occurrence.problems (rt.trace ++ _) = _
    rw [Occurrence.problems_append, List.filterMap_eq_flatMap_toList]
    congr 1
    rw [Occurrence.problems, List.filterMap_flatMap]
    exact List.flatMap_congr fun t _ => (seen_run _ event t).2

/-- **Delivery against the history of the router.** At a tier, and at all tiers from the lowest to
the highest, an event runs exactly the triggers that the history has bound for good and that are
due. -/
theorem delivery_of_history (rt : Runtime σ) (catalog : Catalog) (ops : List Router.Op)
    (event : Event) :
    (∀ tier, Delivered { rt with router := (Router.Op.applyAll { catalog } ops).1 } event
      (due catalog (Router.Op.lasting { catalog } ops) event tier)
      ({ rt with router := (Router.Op.applyAll { catalog } ops).1 }.dispatch event tier)) ∧
    Delivered { rt with router := (Router.Op.applyAll { catalog } ops).1 } event
      (dueInTurn catalog (Router.Op.lasting { catalog } ops) event)
      ({ rt with router := (Router.Op.applyAll { catalog } ops).1 }.fire event) ∧
    (∀ tier, tier ∈ Tier.all) ∧ Tier.all.Pairwise fun a b => a.rank < b.rank := by
  have hids := (Router.serves_history catalog ops).ids
  refine ⟨fun tier => ?_, ?_, Tier.mem_all, Tier.pairwise_all⟩
  · unfold dispatch
    rw [Router.dispatch_history]
    exact delivered_of_runs _ event (nodup_due hids tier)
  · unfold fire
    rw [Router.fire_history]
    exact delivered_of_runs _ event (nodup_dueInTurn hids)

end Runtime

end EventScripts
