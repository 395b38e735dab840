import EventScripts.Proofs.Loader.Loading
/-!
# What leaves the router alone

Most of what a loader does is no business of the router: files are resolved and
read, scripts are constructed and entered into the registry, triggers are run.
`Undisturbed` says of two runtimes that the second has the router of the first,
and that nothing has been asked of the host in between. A batch gets as far as
`starting` before anything of it is activated, and up to there the router is
left alone.
-/

namespace EventScripts

namespace Occurrence

theorem hostCalls_reported (census : Census) (ps : List Problem) :
    hostCalls (ps.map (Occurrence.reported · census)) = [] :=
  hostCalls_map (fun _ => rfl) ps

end Occurrence

/-- Running a trigger asks nothing of the host. -/
theorem Execution.hostCalls_occurrences (census : Census) (e : Execution) :
    Occurrence.hostCalls (e.occurrences census) = [] := by
  rw [occurrences, Occurrence.hostCalls_append]
  have hremarks : Occurrence.hostCalls (e.remarks.map .remarked) = [] :=
    Occurrence.hostCalls_map (fun _ => rfl) e.remarks
  cases e.problem? with
  | none => exact (List.append_nil _).trans hremarks
  | some problem => exact (List.append_nil _).trans hremarks

theorem Execution.hostCalls_flatMap (census : Census) (es : List Execution) :
    Occurrence.hostCalls (es.flatMap (Execution.occurrences census)) = [] := by
  rw [Occurrence.hostCalls, List.filterMap_flatMap]
  exact List.flatMap_eq_nil_iff.2 fun e _ => e.hostCalls_occurrences census

/-- Work that asks nothing of the host does not do so between an opening and a closing either. -/
theorem Fate.hostCalls_story {α : Type} {work : Work α}
    (h : Occurrence.hostCalls work.occurrences = []) (census : Census) (fate : Fate) :
    Occurrence.hostCalls (fate.story census work) = [] := by
  have hfinish : ∀ verdict : Except Fault α,
      Occurrence.hostCalls (Task.finish census verdict).2 = [] := by
    intro verdict
    cases verdict <;> rfl
  have hclosing : ∀ (result : Except Fault α) (closed : Except Fault Unit),
      Occurrence.hostCalls (Task.closing result closed) = [] := by
    intro result closed
    unfold Task.closing
    split <;> rfl
  unfold story
  split
  · exact hfinish _
  · rw [Occurrence.hostCalls_append, Occurrence.hostCalls_append, hclosing, hfinish]
    exact (List.append_nil _).trans h

namespace Runtime

variable {σ : Type}

/-- The router is the same, and the host has not been asked for anything. -/
structure Undisturbed (rt last : Runtime σ) : Prop where
  router : last.router = rt.router
  hostCalls : Occurrence.hostCalls last.trace = Occurrence.hostCalls rt.trace

theorem Undisturbed.refl (rt : Runtime σ) : Undisturbed rt rt := ⟨rfl, rfl⟩

theorem Undisturbed.trans {rt mid last : Runtime σ} (h : Undisturbed rt mid)
    (h' : Undisturbed mid last) : Undisturbed rt last :=
  ⟨h'.router.trans h.router, h'.hostCalls.trans h.hostCalls⟩

theorem undisturbed_record (rt : Runtime σ) {os : List Occurrence}
    (h : Occurrence.hostCalls os = []) : Undisturbed rt (rt.record os) := by
  refine ⟨rfl, ?_⟩
  show Occurrence.hostCalls (rt.trace ++ os) = _
  rw [Occurrence.hostCalls_append, h, List.append_nil]

theorem undisturbed_report (rt : Runtime σ) (problem : Problem) :
    Undisturbed rt (rt.report problem) := undisturbed_record rt rfl

theorem undisturbed_reports (rt : Runtime σ) (census : Census) (ps : List Problem) :
    Undisturbed rt (rt.record (ps.map (.reported · census))) :=
  undisturbed_record rt (Occurrence.hostCalls_reported census ps)

/-- Another registry is no matter of the router. -/
theorem undisturbed_registry (rt : Runtime σ) (registry : Registry σ) :
    Undisturbed rt { rt with registry } := ⟨rfl, rfl⟩

theorem undisturbed_dispatch (rt : Runtime σ) (event : Event) (tier : Tier) :
    Undisturbed rt (rt.dispatch event tier).1 :=
  undisturbed_record rt (Execution.hostCalls_flatMap _ _)

theorem undisturbed_fire (rt : Runtime σ) (event : Event) : Undisturbed rt (rt.fire event).1 :=
  undisturbed_record rt (Execution.hostCalls_flatMap _ _)

theorem undisturbed_enterAll : ∀ (scripts : List (Script σ)) (rt : Runtime σ),
    Undisturbed rt (rt.enterAll scripts).1
  | [], rt => .refl rt
  | script :: rest, rt => by
    unfold enterAll enter
    cases rt.registry.insert script with
    | error violation => exact (undisturbed_report rt _).trans (undisturbed_enterAll rest _)
    | ok registry =>
      have hentered : Undisturbed rt ({ rt with registry }.record [.entered script.path]) :=
        (undisturbed_registry rt registry).trans (undisturbed_record _ rfl)
      exact (hentered.trans (undisturbed_record _ rfl)).trans (undisturbed_enterAll rest _)

/-! ## Batches -/

theorem undisturbed_afterReading (rt : Runtime σ) (files : FileSystem) (paths : List Path) :
    Undisturbed rt (rt.afterReading files paths) :=
  ((undisturbed_reports rt _ _).trans (undisturbed_reports _ _ _)).trans (undisturbed_record _ rfl)

theorem undisturbed_construct (rt : Runtime σ) (env : Surroundings σ) (trees : List Tree) :
    Undisturbed rt (rt.construct env trees).1 := by
  obtain ⟨fates, hworks, -, hseen⟩ := Task.runAll_eq env.scope rt.registry.census
    (if rt.workers = 0 then [] else env.schedule)
    (Construct.scripts env.grammar rt.router.catalog rt.registry.census rt.issued trees).1 {}
  rw [Construct.scripts_eq] at hworks
  -- the works are those of constructing scripts, and so ask nothing of the host
  have hquiet : ∀ f ∈ fates, Occurrence.hostCalls f.1.occurrences = [] := by
    intro f hf
    have hwork : f.1 ∈ fates.map (·.1) := List.mem_map_of_mem hf
    rw [hworks] at hwork
    obtain ⟨file, -, he⟩ := List.mem_map.1 hwork
    rw [← he, Construct.script, Occurrence.hostCalls_append, Occurrence.hostCalls_reported]
    rfl
  have hcalls := hseen.filterMap Occurrence.hostCall?
  rw [List.filterMap_flatMap,
    List.flatMap_eq_nil_iff.2 fun f hf => f.2.hostCalls_story (hquiet f hf) _] at hcalls
  have hissued : Undisturbed rt
      { rt with issued := (Construct.scripts env.grammar rt.router.catalog rt.registry.census
        rt.issued trees).2 } := ⟨rfl, rfl⟩
  exact hissued.trans (undisturbed_record _ hcalls.eq_nil)

/-- The runtime when the scope for the activation of a batch is opened. -/
def starting (rt : Runtime σ) (env : Surroundings σ) (paths : List Path) : Runtime σ :=
  (rt.constructed env paths).1.record [.activating, .scopeOpened]

theorem undisturbed_starting (rt : Runtime σ) (env : Surroundings σ) (paths : List Path) :
    Undisturbed rt (rt.starting env paths) :=
  ((undisturbed_afterReading rt env.files paths).trans (undisturbed_construct _ env _)).trans
    (undisturbed_record _ rfl)

theorem registry_starting (rt : Runtime σ) (env : Surroundings σ) (paths : List Path) :
    (rt.starting env paths).registry = rt.registry := rfl

/-- The scripts that have been constructed are prepared for activation. -/
theorem exists_prepared [Structure σ] (rt : Runtime σ) (env : Surroundings σ) (paths : List Path) :
    ∃ built, (rt.constructed env paths).2.1 = built.filterMap Built.script? ∧
      Prepared rt env paths built (rt.starting env paths) := by
  obtain ⟨built, issued, os, use, hconstruct, hfiles, hcalls, hproblems⟩ :=
    construct_eq (rt.afterReading env.files paths) env
      (Batch.trees env.files (Batch.resolved env.files paths))
  have hprepared := prepared_of_construct rt issued hfiles hcalls hproblems
  refine ⟨built, ?_⟩
  unfold starting constructed
  rw [hconstruct]
  exact ⟨rfl, hprepared⟩

/-- A batch that is not refused is constructed and then finished. -/
theorem load_of_admitted [Structure σ] {rt : Runtime σ} {env : Surroundings σ} {paths : List Path}
    (h : rt.registry.violation? [] (Batch.resolved env.files paths) = none) :
    rt.load env paths = (rt.constructed env paths).1.finish env.scope
      (rt.constructed env paths).2.1 (rt.constructed env paths).2.2 := by
  rw [load_eq, h]
  rfl

end Runtime

end EventScripts
