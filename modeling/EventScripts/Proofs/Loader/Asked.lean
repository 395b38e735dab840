import EventScripts.Proofs.Loader.Reachable
import EventScripts.Proofs.Loader.Undisturbed
import EventScripts.Proofs.Router.Listening
/-!
# What a loader asks of its host

Structures bind and release triggers at any moment of their lives, and each time
the router passes on to the host what it needs. Whatever the structures do, the
requests about a channel alternate, from what the host was doing to what the
router needs of it now. `Asked` says so of two runtimes; every operation of a
loader goes from one to the other in this way.
-/

namespace EventScripts.Runtime

variable {σ : Type}

/-- The requests made from one runtime to another alternate, and the router serves some triggers
at the end. -/
structure Asked (start last : Runtime σ) : Prop where
  serves : ∃ ts, last.router.Serves ts
  calls : ∃ calls, Occurrence.hostCalls last.trace = Occurrence.hostCalls start.trace ++ calls ∧
    ∀ c, HostCall.Alternates c (start.router.isListening c) (HostCall.about c calls)
      (last.router.isListening c)

variable {start rt last : Runtime σ}

theorem asked_refl (h : ∃ ts, rt.router.Serves ts) : Asked rt rt :=
  ⟨h, [], (List.append_nil _).symm, fun _ => rfl⟩

/-- What leaves the router alone asks for nothing. -/
theorem Asked.undisturbed (h : Asked start rt) (hu : Undisturbed rt last) : Asked start last := by
  obtain ⟨hs, calls, hcalls, halt⟩ := h
  rw [← hu.router] at hs halt
  exact ⟨hs, calls, hu.hostCalls.trans hcalls, halt⟩

/-- An operation on the router asks for what has changed. -/
theorem Asked.op (h : Asked start rt) (op : Router.Op)
    (hr : last.router = (op.apply rt.router).1)
    (hc : Occurrence.hostCalls last.trace
      = Occurrence.hostCalls rt.trace ++ (op.apply rt.router).2) : Asked start last := by
  obtain ⟨⟨ts, hs⟩, calls, hcalls, halt⟩ := h
  refine ⟨⟨_, hr ▸ Router.Op.serves_applyAll [op] hs⟩, calls ++ (op.apply rt.router).2, ?_, ?_⟩
  · rw [hc, hcalls, List.append_assoc]
  · intro c
    rw [HostCall.about_append, hr]
    exact (halt c).append (Router.Op.alternates_apply hs op c)

/-- Whatever a structure does, the requests alternate. -/
theorem kept_asked (start : Runtime σ) : Kept (Asked start) where
  record rt os _ hos h := h.undisturbed (undisturbed_record rt hos)
  bind rt t h := by
    cases hb : rt.router.bind t with
    | error e => simpa [Runtime.bind, hb] using h
    | ok out =>
      obtain ⟨after, calls⟩ := out
      have hop := Router.Op.apply_bind_of_ok hb
      have hbound : (rt.bind t).1 = { rt with router := after }.record
          (calls.map Occurrence.host ++ [Occurrence.bound t.name t.id]) := by
        simp only [Runtime.bind, hb]
      rw [hbound]
      refine h.op (.bind t) (by rw [hop]; rfl) ?_
      rw [hop]
      show Occurrence.hostCalls (rt.trace ++ _) = _
      rw [Occurrence.hostCalls_append, Occurrence.hostCalls_append, Occurrence.hostCalls_host]
      exact congrArg _ (List.append_nil calls)
  release rt id h := by
    refine h.op (.release id) rfl ?_
    show Occurrence.hostCalls (rt.trace ++ _) = _
    rw [Occurrence.hostCalls_append, Occurrence.hostCalls_append, Occurrence.hostCalls_host]
    have hreleased : ∀ found : Bool, Occurrence.hostCalls
        (if found then [Occurrence.released id] else []) = [] := by
      intro found
      cases found <;> rfl
    rw [hreleased, List.append_nil]
    rfl
  enter rt script h := by
    refine h.undisturbed ?_
    unfold Runtime.enter
    cases rt.registry.insert script with
    | error violation => exact .refl rt
    | ok registry => exact (undisturbed_registry rt registry).trans (undisturbed_record _ rfl)

/-! ## The operations of the loader -/

theorem undisturbed_scan (rt : Runtime σ) (files : FileSystem) (root : Path) :
    Undisturbed rt (rt.scan files root).1 := by
  obtain ⟨os, hos, hscan⟩ := exists_scan rt files root
  rw [hscan]
  refine (undisturbed_registry rt _).trans (undisturbed_record _ ?_)
  refine Occurrence.filterMap_ofSearch hos fun o ho => ?_
  cases o <;> first | rfl | cases ho

variable [Structure σ]

theorem asked_activate (h : Asked start rt) (scripts : List (Script σ)) :
    Asked start (rt.activate scripts).1 := by
  obtain ⟨pre, load, post, hact⟩ := exists_activation rt scripts
  exact Call.kept_linked (kept_asked start) hact.linked h

theorem asked_finish (h : Asked start rt) (scope : Scope) (scripts : List (Script σ))
    (use : ScopeUse) : Asked start (rt.finish scope scripts use).1 := by
  have hbegun : Asked start (rt.record [.activating, .scopeOpened]) :=
    h.undisturbed (undisturbed_record rt rfl)
  have hclosed : ∀ os, Occurrence.hostCalls os = [] → Asked start
      (((rt.record [.activating, .scopeOpened]).activate scripts).1.record os) :=
    fun os hos => (asked_activate hbegun scripts).undisturbed (undisturbed_record _ hos)
  have hentered : ∀ {mid : Runtime σ}, Asked start mid → ∀ scripts tally,
      Asked start ((mid.enterAll scripts).1.record [.batchLoaded tally]) :=
    fun hm scripts tally =>
      (hm.undisturbed (undisturbed_enterAll scripts _)).undisturbed (undisturbed_record _ rfl)
  simp only [finish, Scope.openOnce, Scope.closeOnce]
  cases scope.opening use.opened with
  | error fault => cases fault <;> exact hbegun
  | ok _ =>
    simp only
    cases scope.closing use.closed with
    | ok _ => exact hentered (hclosed _ rfl) _ _
    | error fault =>
      cases fault with
      | panic text => exact hclosed _ rfl
      | failure message =>
        exact hentered ((hclosed _ rfl).undisturbed (undisturbed_report _ _)) _ _

theorem asked_load (h : Asked start rt) (env : Surroundings σ) (paths : List Path) :
    Asked start (rt.load env paths).1 := by
  cases hv : rt.registry.violation? [] (Batch.resolved env.files paths) with
  | some violation =>
    rw [load_eq, hv]
    exact h.undisturbed (undisturbed_reports rt _ _)
  | none =>
    rw [load_of_admitted hv]
    exact asked_finish (h.undisturbed ((undisturbed_afterReading rt env.files paths).trans
      (undisturbed_construct _ env _))) env.scope _ _

theorem asked_unload (h : Asked start rt) (paths : List Path) :
    Asked start (rt.unload paths).1 :=
  (kept_asked start).unload (fun rt registry h => h.undisturbed (undisturbed_registry rt registry))
    paths h

theorem asked_unloadScripts (h : Asked start rt) (files : FileSystem) (paths : List Path) :
    Asked start (rt.unloadScripts files paths).1 := by
  obtain ⟨total, hunload⟩ := exists_unloadScripts rt files paths
  rw [hunload]
  refine (asked_unload h _).undisturbed (undisturbed_record _ ?_)
  rw [Occurrence.hostCalls_append, Occurrence.hostCalls_map fun _ => rfl,
    Occurrence.hostCalls_map fun _ => rfl]
  rfl

theorem asked_loadDirectory (h : Asked start rt) (env : Surroundings σ) (root : Path) :
    Asked start (rt.loadDirectory env root).1 :=
  asked_load (h.undisturbed (undisturbed_scan rt env.files root)) env _

theorem asked_reloadDirectory (h : Asked start rt) (env : Surroundings σ) (root : Path) :
    Asked start (rt.reloadDirectory env root).1 := by
  obtain ⟨count, hreload⟩ := exists_reloadDirectory rt env root
  rw [hreload]
  refine (asked_loadDirectory (asked_unloadScripts h env.files rt.registry.loadedPaths) env
    root).undisturbed (undisturbed_record _ ?_)
  exact Occurrence.hostCalls_map (fun _ => rfl) count

/-- **Every step of a loader** asks for what has changed, and for nothing else. -/
theorem asked_step (hs : Step rt last) (h : Asked start rt) : Asked start last := by
  cases hs with
  | load env paths => exact asked_load h env paths
  | loadDirectory env root => exact asked_loadDirectory h env root
  | unloadScripts files paths => exact asked_unloadScripts h files paths
  | unloadAll files => exact asked_unloadScripts h files _
  | reload env paths => exact asked_load (asked_unloadScripts h env.files paths) env paths
  | reloadDirectory env root => exact asked_reloadDirectory h env root
  | dispatch event tier => exact h.undisturbed (undisturbed_dispatch rt event tier)
  | fire event => exact h.undisturbed (undisturbed_fire rt event)
  | resize workers => exact h.undisturbed ⟨rfl, rfl⟩
  | registry op => exact h.undisturbed (undisturbed_registry rt _)

/-- In every state of a loader the router serves some triggers. -/
theorem serves_of_reachable {catalog : Catalog} (h : Reachable catalog rt) :
    ∃ ts, rt.router.Serves ts := by
  induction h with
  | fresh => exact ⟨[], Router.serves_nil catalog⟩
  | step _ hs ih => exact (asked_step hs (asked_refl ih)).serves

end EventScripts.Runtime
