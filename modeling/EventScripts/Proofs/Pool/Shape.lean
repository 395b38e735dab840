import EventScripts.Proofs.Pool.Fates
/-!
# What workers do not look at

Workers carry work without looking into it. Whatever the works come to and let
be seen, the scope is used in the same way; and if the values that they come to
are mapped, so are the results. `runAll_congr` has it for works that cannot be
told apart after mapping.
-/

namespace EventScripts

variable {α β γ : Type}

namespace Progress

def map (f : α → β) : Progress α → Progress β
  | waiting => waiting
  | opened => opened
  | worked result => worked (result.map f)
  | done result => done (result.map f)

end Progress

namespace Task

/-- The task with its values mapped, and nothing to be seen of its work. -/
def map (f : α → β) (task : Task α) : Task β :=
  ⟨{ result := task.work.result.map f }, task.progress.map f⟩

theorem settle_map (f : α → β) (result : Except Fault α) (closed : Except Fault Unit) :
    settle (result.map f) closed = (settle result closed).map f := by
  cases result with
  | ok value => cases closed <;> rfl
  | error fault => cases fault <;> cases closed with
    | ok _ => rfl
    | error other => cases other <;> rfl

theorem map_finish (f : α → β) (census other : Census) (verdict : Except Fault α) :
    ((finish census verdict).1).map f = (finish other (verdict.map f)).1 := by
  cases verdict <;> rfl

theorem result_map (f : α → β) (task : Task α) : (task.map f).result = task.result.map f := by
  obtain ⟨work, progress⟩ := task
  cases progress <;> rfl

variable (scope : Scope) (census other : Census)

/-- A step does not depend on the values. -/
theorem step_map (f : α → β) (task : Task α) (use : ScopeUse) :
    ((task.map f).step scope other use).1 = (task.step scope census use).1.map f ∧
      ((task.map f).step scope other use).2.1 = (task.step scope census use).2.1 := by
  obtain ⟨work, progress⟩ := task
  cases progress with
  | waiting =>
    simp only [step, map, Progress.map, Scope.openOnce]
    cases scope.opening use.opened <;> exact ⟨rfl, rfl⟩
  | opened => exact ⟨rfl, rfl⟩
  | worked result =>
    refine ⟨?_, rfl⟩
    have hfinish := map_finish f census other (settle result (scope.closing use.closed))
    simp only [step, map, Progress.map, Scope.closeOnce, settle_map]
    rw [← hfinish]
    rfl
  | done result => exact ⟨rfl, rfl⟩

theorem stepAt_map (f : α → β) : ∀ (place : Nat) (tasks : List (Task α)) (use : ScopeUse),
    (stepAt scope other place (tasks.map (map f)) use).1
        = (stepAt scope census place tasks use).1.map (map f) ∧
      (stepAt scope other place (tasks.map (map f)) use).2.1
        = (stepAt scope census place tasks use).2.1
  | 0, [], _ | _ + 1, [], _ => ⟨rfl, rfl⟩
  | 0, task :: rest, use => by
    obtain ⟨htask, huse⟩ := step_map scope census other f task use
    exact ⟨by simp [stepAt, htask], huse⟩
  | place + 1, task :: rest, use => by
    obtain ⟨hrest, huse⟩ := stepAt_map f place rest use
    exact ⟨by simp [stepAt, hrest], huse⟩

theorem follow_map (f : α → β) : ∀ (schedule : List Nat) (tasks : List (Task α)) (use : ScopeUse),
    (follow scope other schedule (tasks.map (map f)) use).1
        = (follow scope census schedule tasks use).1.map (map f) ∧
      (follow scope other schedule (tasks.map (map f)) use).2.1
        = (follow scope census schedule tasks use).2.1
  | [], _, _ => ⟨rfl, rfl⟩
  | place :: schedule, tasks, use => by
    obtain ⟨htasks, huse⟩ := stepAt_map scope census other f place tasks use
    simp only [follow]
    rw [htasks, huse]
    exact follow_map f schedule _ _

/-- Tasks whose values are mapped come to results that are mapped. -/
theorem runAll_map (f : α → β) (schedule : List Nat) (works : List (Work α)) (use : ScopeUse) :
    (runAll scope other schedule (works.map fun work => { result := work.result.map f }) use).1
        = (runAll scope census schedule works use).1.map (·.map f) ∧
      (runAll scope other schedule (works.map fun work => { result := work.result.map f }) use).2.1
        = (runAll scope census schedule works use).2.1 := by
  have hstart : (works.map fun work => ({ result := work.result.map f } : Work β)).map
        (fun work => ({ work } : Task β))
      = (works.map fun work => ({ work } : Task α)).map (map f) := by
    rw [List.map_map, List.map_map]
    rfl
  obtain ⟨htasks, huse⟩ := follow_map scope census other f (schedule ++ inTurn works.length)
    (works.map fun work => ({ work } : Task α)) use
  simp only [runAll, List.length_map, hstart, htasks]
  refine ⟨?_, huse⟩
  rw [List.map_map, List.map_map]
  exact List.map_congr_left fun task _ => result_map f task

/-- **Works that come to the same after mapping** fare alike: so do their results, and the scope
is used in the same way. -/
theorem runAll_congr {f : α → γ} {g : β → γ} {works : List (Work α)} {more : List (Work β)}
    (h : works.map (fun work => work.result.map f) = more.map fun work => work.result.map g)
    (schedule : List Nat) (use : ScopeUse) :
    (runAll scope census schedule works use).1.map (·.map f)
        = (runAll scope other schedule more use).1.map (·.map g) ∧
      (runAll scope census schedule works use).2.1
        = (runAll scope other schedule more use).2.1 := by
  obtain ⟨hresults, huse⟩ := runAll_map scope census census f schedule works use
  obtain ⟨hmore, huse'⟩ := runAll_map scope other census g schedule more use
  have hworks : works.map (fun work => ({ result := work.result.map f } : Work γ))
      = more.map fun work => ({ result := work.result.map g } : Work γ) := by
    have hresult := congrArg (List.map fun result => ({ result } : Work γ)) h
    rwa [List.map_map, List.map_map] at hresult
  rw [← hresults, ← hmore, ← huse, ← huse', hworks]
  exact ⟨rfl, rfl⟩

end Task

end EventScripts
