import EventScripts.Demo.Grammar
import EventScripts.Proofs.FileSystem.Resolution
import EventScripts.Proofs.Loader.Loading
import EventScripts.Proofs.Pool.Turns
/-!
# The scopes of a batch

The task of each script opens the scope of a batch and closes it again, and so does
the activation, behind all tasks. What structures do opens and closes nothing
(`without_activate`), so that each of these makes one bracket, in which all is done that
belongs there (`load_bracketed`).

Steps 3 and 8 of `SPEC_FULL.md` §4.2.
-/

namespace EventScripts

variable {σ : Type}

theorem Occurrence.called?_of_not_bracketed {o : Occurrence} (h : o.isBracketed = false) :
    o.called? = none := by
  cases o <;> first | rfl | cases h

/-- No structure is called but inside. -/
theorem Bracket.not_called {opening : Except Fault Unit} {inside seen : List Occurrence}
    (h : Bracket opening inside seen) (hinside : ∀ o ∈ inside, o.called? = none) :
    ∀ o ∈ seen, o.called? = none := by
  have hrest : ∀ rest : List Occurrence, (∀ o ∈ rest, o.isBracketed = false) →
      ∀ o ∈ rest, o.called? = none := fun _ h o ho => Occurrence.called?_of_not_bracketed (h o ho)
  cases h with
  | refused _ hbehind => exact List.forall_mem_cons.2 ⟨rfl, hrest _ hbehind⟩
  | closed _ _ hbehind =>
    exact List.forall_mem_cons.2 ⟨rfl, List.forall_mem_append.2
      ⟨hinside, List.forall_mem_cons.2 ⟨rfl, hrest _ hbehind⟩⟩⟩

namespace Runtime

/-! ## What is not added -/

/-- Nothing of a kind has been added from one runtime to another. -/
def Without (kind : Occurrence → Bool) (rt last : Runtime σ) : Prop :=
  ∃ os, last.trace = rt.trace ++ os ∧ ∀ o ∈ os, kind o = false

namespace Without

variable {kind : Occurrence → Bool} {rt mid last : Runtime σ}

theorem refl (kind : Occurrence → Bool) (rt : Runtime σ) : Without kind rt rt :=
  ⟨[], (List.append_nil _).symm, nofun⟩

theorem trans (h : Without kind rt mid) (h' : Without kind mid last) : Without kind rt last := by
  obtain ⟨os, htrace, hos⟩ := h
  obtain ⟨more, htrace', hmore⟩ := h'
  exact ⟨os ++ more, by rw [htrace', htrace, List.append_assoc],
    List.forall_mem_append.2 ⟨hos, hmore⟩⟩

theorem record {os : List Occurrence} (h : Without kind rt last) (hos : ∀ o ∈ os, kind o = false) :
    Without kind rt (last.record os) := h.trans ⟨os, rfl, hos⟩

theorem scopeCall (h : Without Occurrence.isBracketed rt last) :
    Without Occurrence.isScopeCall rt last := by
  obtain ⟨os, htrace, hos⟩ := h
  exact ⟨os, htrace, fun o ho => Occurrence.isScopeCall_of_not_bracketed (hos o ho)⟩

end Without

theorem not_bracketed_host (calls : List HostCall) :
    ∀ o ∈ calls.map Occurrence.host, o.isBracketed = false := by
  intro o ho
  obtain ⟨call, -, rfl⟩ := List.mem_map.1 ho
  rfl

theorem without_bind (rt : Runtime σ) (trigger : Trigger) :
    Without Occurrence.isBracketed rt (rt.bind trigger).1 := by
  unfold bind
  split
  · exact .refl _ rt
  · exact ⟨_, rfl, List.forall_mem_append.2
      ⟨not_bracketed_host _, by simp [Occurrence.isBracketed]⟩⟩

theorem without_release (rt : Runtime σ) (id : TriggerId) :
    Without Occurrence.isBracketed rt (rt.release id).1 := by
  refine ⟨_, rfl, List.forall_mem_append.2 ⟨not_bracketed_host _, ?_⟩⟩
  split <;> simp [Occurrence.isBracketed]

theorem without_enter (rt : Runtime σ) (script : Script σ) :
    Without Occurrence.isBracketed rt (rt.enter script).1 := by
  unfold enter
  split
  · exact .refl _ rt
  · exact ⟨_, rfl, by simp [Occurrence.isBracketed]⟩

theorem without_perform (rt : Runtime σ) (action : Action σ) :
    Without Occurrence.isBracketed rt (rt.perform action).1 :=
  perform_induction (fun _ _ h => h.record (by simp [Occurrence.isBracketed]))
    (fun _ trigger h => h.trans (without_bind _ trigger))
    (fun _ id h => h.trans (without_release _ id))
    (fun _ script h => h.trans (without_enter _ script)) action (.refl _ rt)

theorem without_report (rt : Runtime σ) (problem : Problem) :
    Without Occurrence.isBracketed rt (rt.report problem) :=
  ⟨_, rfl, by simp [Occurrence.isBracketed]⟩

theorem without_enterAll : ∀ (scripts : List (Script σ)) (rt : Runtime σ),
    Without Occurrence.isBracketed rt (rt.enterAll scripts).1
  | [], rt => .refl _ rt
  | script :: rest, rt => by
    have henter := without_enter rt script
    unfold enterAll
    generalize rt.enter script = entered at henter
    obtain ⟨rt, answer⟩ := entered
    cases answer with
    | error violation =>
      exact (henter.trans (without_report rt _)).trans (without_enterAll rest _)
    | ok _ =>
      exact (henter.record (by simp [Occurrence.isBracketed])).trans (without_enterAll rest _)

/-! ## The tasks of a batch -/

/-- The turns of the tasks of a batch. -/
def turns (rt : Runtime σ) (env : Surroundings σ) (paths : List Path) : List Turn :=
  Task.turns env.scope rt.registry.census
    ((if rt.workers = 0 then [] else env.schedule) ++ Task.inTurn (rt.works env paths).length)
    ((rt.works env paths).map fun work => { work }) {}

/-- What is seen of constructing a script are reports, and that it has been constructed. -/
theorem works_spec (rt : Runtime σ) (env : Surroundings σ) (paths : List Path) :
    ∀ work ∈ rt.works env paths, ∀ o ∈ work.occurrences,
      o.isScopeCall = false ∧ o.called? = none := by
  intro work hwork o ho
  rw [works, Construct.scripts_eq] at hwork
  obtain ⟨file, -, rfl⟩ := List.mem_map.1 hwork
  rcases List.mem_append.1 ho with ho | ho
  · obtain ⟨problem, -, rfl⟩ := List.mem_map.1 ho
    exact ⟨rfl, rfl⟩
  · rw [List.mem_singleton.1 ho]
    exact ⟨rfl, rfl⟩

theorem not_scopeCall_works (rt : Runtime σ) (env : Surroundings σ) (paths : List Path) :
    ∀ work ∈ rt.works env paths, ∀ o ∈ work.occurrences, o.isScopeCall = false :=
  fun work hwork o ho => (works_spec rt env paths work hwork o ho).1

/-- What happens before the first task takes its turn. -/
def beforeTurns (rt : Runtime σ) (files : FileSystem) (paths : List Path) : List Occurrence :=
  (Batch.unresolved files paths).map (.reported · rt.registry.census)
    ++ ((Batch.resolved files paths).flatMap (Batch.readReports files)).map
      (.reported · rt.registry.census)
    ++ [.batchStarted (Batch.trees files (Batch.resolved files paths)).length,
      .constructing (Batch.trees files (Batch.resolved files paths)).length rt.workers]

theorem not_bracketed_beforeTurns (rt : Runtime σ) (files : FileSystem) (paths : List Path) :
    ∀ o ∈ rt.beforeTurns files paths, o.isBracketed = false := by
  have hreported : ∀ problems : List Problem, ∀ o ∈ problems.map
      (Occurrence.reported · rt.registry.census), o.isBracketed = false := by
    intro problems o ho
    obtain ⟨problem, -, rfl⟩ := List.mem_map.1 ho
    rfl
  exact List.forall_mem_append.2 ⟨List.forall_mem_append.2 ⟨hreported _, hreported _⟩,
    by simp [Occurrence.isBracketed]⟩

/-- Construction opens and closes scopes as the tasks do that take their turns. -/
theorem trace_constructed (rt : Runtime σ) (env : Surroundings σ) (paths : List Path) :
    (rt.constructed env paths).1.trace
      = rt.trace ++ (rt.beforeTurns env.files paths ++ (rt.turns env paths).flatMap Turn.seen) := by
  rw [turns, Task.flatMap_turns]
  simp only [constructed, construct, record, afterReading, beforeTurns, List.append_assoc]
  rfl

/-- The scope has been called as often as is seen. -/
theorem use_constructed (rt : Runtime σ) (env : Surroundings σ) (paths : List Path) :
    (rt.constructed env paths).2.2 = ⟨(Turn.openers (rt.turns env paths)).length,
      ((rt.turns env paths).flatMap Turn.seen).countP Occurrence.isClosing⟩ :=
  (Task.bracket_of_turns rt.registry.census (not_scopeCall_works rt env paths)
    (if rt.workers = 0 then [] else env.schedule) rfl).2.2

/-- Without workers, the tasks do what they do in turn. -/
theorem alternates_turns {rt : Runtime σ} (hworkers : rt.workers = 0) (env : Surroundings σ)
    (paths : List Path) {rest : List Occurrence}
    (hrest : env.scope.Alternates (Turn.openers (rt.turns env paths)).length rest) :
    env.scope.Alternates 0
      (((rt.turns env paths).flatMap Turn.seen).filter Occurrence.isScopeCall ++ rest) := by
  have hopened : (Task.runAll env.scope rt.registry.census
      (if rt.workers = 0 then [] else env.schedule) (rt.works env paths) {}).2.1.opened
        = (Turn.openers (rt.turns env paths)).length :=
    congrArg ScopeUse.opened (use_constructed rt env paths)
  have hturns : Task.inTurn (rt.works env paths).length
      = (List.range' 0 (rt.works env paths).length).flatMap (List.replicate Task.stepCount ·) := by
    rw [Task.inTurn, List.range_eq_range']
  rw [← hopened, Task.runAll, if_pos hworkers] at hrest
  rw [turns, Task.flatMap_turns, if_pos hworkers]
  exact Task.alternates_inTurn rt.registry.census (rt.works env paths) [] {}
    (not_scopeCall_works rt env paths) hturns hrest

variable [Structure σ]

/-- **A call** opens and closes nothing. -/
theorem without_call (rt : Runtime σ) (phase : Phase) (script : Path) (self : σ) :
    Without Occurrence.isScopeCall rt (rt.call phase script self).1 := by
  have hcalled : Without Occurrence.isScopeCall rt
      (rt.record [.called phase script (Structure.name self) rt.registry.census]) :=
    ⟨_, rfl, by simp [Occurrence.isScopeCall]⟩
  have hperformed := hcalled.trans (without_perform _ (Structure.act phase script self)).scopeCall
  unfold call
  simp only
  split
  · split
    · exact hperformed
    · exact hperformed.trans (without_report _ _).scopeCall
  · exact hperformed.trans (without_report _ _).scopeCall

theorem without_linked : ∀ {calls : List (Call σ)} {rt last : Runtime σ},
    Call.Linked rt calls last → Without Occurrence.isScopeCall rt last
  | [], rt, _, h => by
    cases h
    exact .refl _ rt
  | c :: _, _, _, ⟨hbefore, hrest⟩ => by
    subst hbefore
    exact (without_call c.before c.phase c.member.path c.member.self).trans (without_linked hrest)

/-- **Activation** opens and closes nothing. -/
theorem without_activate (rt : Runtime σ) (scripts : List (Script σ)) :
    Without Occurrence.isScopeCall rt (rt.activate scripts).1 := by
  obtain ⟨pre, load, post, hactivation⟩ := exists_activation rt scripts
  exact without_linked hactivation.linked

/-! ## The scope around an activation -/

/-- **An activation makes a bracket**, in which all structures are called. -/
theorem bracket_of_finish (rt : Runtime σ) (scope : Scope) (scripts : List (Script σ))
    (use : ScopeUse) : ∃ inside activation,
      (rt.finish scope scripts use).1.trace = rt.trace ++ .activating :: activation ∧
      Bracket (scope.opening use.opened) inside activation := by
  obtain ⟨inside, hactivated, hinside⟩ :=
    without_activate (rt.record [.activating, .scopeOpened]) scripts
  refine ⟨inside, ?_⟩
  simp only [finish, Scope.openOnce, Scope.closeOnce]
  cases hopen : scope.opening use.opened with
  | error fault =>
    have hrefused : Bracket (.error fault) inside [.scopeOpened] :=
      .refused rfl fun _ ho => absurd ho List.not_mem_nil
    cases fault <;> exact ⟨[.scopeOpened], rfl, hrefused⟩
  | ok _ =>
    simp only
    -- what is seen behind the closing does not belong inside
    have hbehind : ∀ last : Runtime σ, Without Occurrence.isBracketed
        (((rt.record [.activating, .scopeOpened]).activate scripts).1.record [.scopeClosed]) last →
        ∃ activation, last.trace = rt.trace ++ .activating :: activation ∧
          Bracket (.ok ()) inside activation := by
      rintro last ⟨rest, htrace, hrest⟩
      refine ⟨.scopeOpened :: (inside ++ .scopeClosed :: rest), ?_, .closed rfl hinside hrest⟩
      rw [htrace, Runtime.record, hactivated]
      simp [Runtime.record]
    cases scope.closing use.closed with
    | ok _ =>
      exact hbehind _ ((without_enterAll _ _).record (by simp [Occurrence.isBracketed]))
    | error fault =>
      cases fault with
      | panic text => exact hbehind _ (.refl _ _)
      | failure message =>
        exact hbehind _ (((without_report _ _).trans (without_enterAll _ _)).record
          (by simp [Occurrence.isBracketed]))

/-! ## A batch -/

/-- How the scopes of a batch are used. -/
structure Bracketing (rt : Runtime σ) (env : Surroundings σ) (paths : List Path)
    (reading inside behind : List Occurrence) : Prop where
  /-- The files are read, the tasks take their turns, and the activation comes behind them. -/
  trace : (rt.load env paths).1.trace = rt.trace ++ (reading
    ++ ((rt.turns env paths).flatMap Turn.seen ++ .activating :: behind))
  reading : ∀ o ∈ reading, o.isBracketed = false
  /-- The tasks have called the scope as often as is seen. -/
  use : (rt.constructed env paths).2.2 = ⟨(Turn.openers (rt.turns env paths)).length,
    ((rt.turns env paths).flatMap Turn.seen).countP Occurrence.isClosing⟩
  /-- The turns of each task make a bracket, in which its work is done. -/
  tasks : ∀ i work, (rt.works env paths)[i]? = some work →
    ∃ n, (Turn.openers (rt.turns env paths))[n]? = some i ∧
      Bracket (env.scope.opening n) work.occurrences (Turn.own i (rt.turns env paths))
  others : ∀ turn ∈ rt.turns env paths, (rt.works env paths).length ≤ turn.task → turn.seen = []
  /-- No structure is called before the activation. -/
  called : ∀ turn ∈ rt.turns env paths, ∀ o ∈ turn.seen, o.called? = none
  activation : Bracket (env.scope.opening (Turn.openers (rt.turns env paths)).length) inside behind
  /-- Without workers, what is opened is closed before anything else is opened. -/
  alternates : rt.workers = 0 → env.scope.Alternates 0
    (((rt.turns env paths).flatMap Turn.seen ++ behind).filter Occurrence.isScopeCall)

/-- **The scopes of a batch are bracketed**, whatever its scopes and its structures do, and in
whatever order its tasks take their turns. -/
theorem load_bracketed {rt : Runtime σ} {env : Surroundings σ} {paths : List Path}
    (h : rt.registry.violation? [] (Batch.resolved env.files paths) = none) :
    ∃ reading inside behind, Bracketing rt env paths reading inside behind := by
  obtain ⟨htasks, hothers, -⟩ := Task.bracket_of_turns rt.registry.census
    (not_scopeCall_works rt env paths) (if rt.workers = 0 then [] else env.schedule)
    (Eq.refl (rt.turns env paths))
  have hload := load_eq rt env paths
  simp only [h] at hload
  have hconstruct := trace_constructed rt env paths
  have huse := use_constructed rt env paths
  rw [← constructed] at hload
  obtain ⟨inside, behind, htrace, hbracket⟩ := bracket_of_finish (rt.constructed env paths).1
    env.scope (rt.constructed env paths).2.1 (rt.constructed env paths).2.2
  rw [huse] at hbracket
  refine ⟨rt.beforeTurns env.files paths, inside, behind, ?_, not_bracketed_beforeTurns rt _ _,
    huse, htasks, hothers, fun turn hturn o ho => ?_, hbracket, fun hworkers => ?_⟩
  · rw [hload, htrace, hconstruct, List.append_assoc, List.append_assoc]
  · -- what is seen of a turn is seen of its task
    by_cases htask : turn.task < (rt.works env paths).length
    · have hwork := List.getElem?_eq_getElem htask
      obtain ⟨n, -, hown⟩ := htasks turn.task _ hwork
      refine hown.not_called (fun o ho => (works_spec rt env paths _
        (List.getElem_mem htask) o ho).2) o ?_
      exact List.mem_flatMap.2 ⟨turn, List.mem_filter.2 ⟨hturn, beq_self_eq_true _⟩, ho⟩
    · rw [hothers turn hturn (Nat.not_lt.1 htask)] at ho
      cases ho
  · rw [List.filter_append]
    refine alternates_turns hworkers env paths ?_
    have hlast := hbracket.alternates (.nil _)
    rwa [List.append_nil] at hlast

/-- A batch of one file on two workers, with a scope whose closings panic. -/
theorem load_bracketed_panicking :
    ((⟨⟨Demo.catalog, []⟩, {}, 2, 1, []⟩ : Runtime Handler).registry.violation? []
      (Batch.resolved { entries := [(["a.sk"], .file (.text "on join:\n  hi\n"))] }
        [⟨"/a.sk"⟩]) = none) ∧
    ∃ reading inside behind, Bracketing (⟨⟨Demo.catalog, []⟩, {}, 2, 1, []⟩ : Runtime Handler)
      ⟨Demo.grammar, { entries := [(["a.sk"], .file (.text "on join:\n  hi\n"))] },
        { closing := fun _ => .error (.panic "lost") }, [0]⟩ [⟨"/a.sk"⟩] reading inside behind := by
  have ha : ({ entries := [(["a.sk"], .file (.text "on join:\n  hi\n"))] } : FileSystem).canonical
      ⟨"/a.sk"⟩ = .ok ⟨"/a.sk"⟩ :=
    FileSystem.canonical_of_file "a.sk" (by decide +kernel) (by decide +kernel) ⟨_, rfl⟩
  have h : (⟨⟨Demo.catalog, []⟩, {}, 2, 1, []⟩ : Runtime Handler).registry.violation? []
      (Batch.resolved { entries := [(["a.sk"], .file (.text "on join:\n  hi\n"))] }
        [⟨"/a.sk"⟩]) = none := by
    rw [Batch.resolved_cons ha]
    rfl
  exact ⟨h, load_bracketed h⟩

end Runtime

end EventScripts
