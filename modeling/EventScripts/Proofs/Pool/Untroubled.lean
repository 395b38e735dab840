import EventScripts.Proofs.Pool.Fates
import Mathlib.Data.List.Basic
/-!
# Tasks in a scope that never fails

In a scope that always opens and closes, a task comes to what its work comes to,
in whatever order the workers get on with the tasks (`runAll_untroubled`). What
is seen of the tasks is then the same as well, but for the order
(`seen_untroubled`).
-/

namespace EventScripts

/-- Every opening and every closing succeeds. -/
structure Scope.Untroubled (scope : Scope) : Prop where
  opens : ∀ n, scope.opening n = .ok ()
  closes : ∀ n, scope.closing n = .ok ()

namespace Task

variable {α : Type} {scope : Scope}

/-- Whatever the task has come to so far, it has from its work. -/
def Faithful (task : Task α) : Prop :=
  match task.progress with
  | .waiting | .opened => True
  | .worked result => result = task.work.result
  | .done result => result = task.work.result.mapError .work

theorem settle_ok (result : Except Fault α) : settle result (.ok ()) = result := by
  cases result with
  | ok value => rfl
  | error fault => cases fault <;> rfl

theorem faithful_step (hs : scope.Untroubled) (census : Census) {task : Task α} (h : task.Faithful)
    (use : ScopeUse) : (task.step scope census use).1.Faithful := by
  obtain ⟨work, progress⟩ := task
  cases progress with
  | waiting =>
    simp only [step, Scope.openOnce, hs.opens]
    trivial
  | opened => exact rfl
  | worked result =>
    obtain rfl : result = work.result := h
    simp only [step, Scope.closeOnce, hs.closes, settle_ok, finish_fst]
    exact rfl
  | done result => exact h

/-- A task that has come to an end has the result of its work. -/
theorem Faithful.result {task : Task α} (h : task.Faithful) (hd : task.result ≠ .error .abandoned) :
    task.result = task.work.result.mapError .work := by
  obtain ⟨work, progress⟩ := task
  cases progress with
  | waiting | opened | worked => exact absurd rfl hd
  | done result => exact h

/-! ## Many tasks -/

theorem faithful_stepAt (hs : scope.Untroubled) (census : Census) : ∀ (place : Nat)
    (tasks : List (Task α)) (use : ScopeUse), (∀ task ∈ tasks, task.Faithful) →
    ∀ task ∈ (stepAt scope census place tasks use).1, task.Faithful
  | 0, [], _, h | _ + 1, [], _, h => h
  | 0, first :: rest, use, h => by
    obtain ⟨hfirst, hrest⟩ := List.forall_mem_cons.1 h
    exact List.forall_mem_cons.2 ⟨faithful_step hs census hfirst use, hrest⟩
  | place + 1, first :: rest, use, h => by
    obtain ⟨hfirst, hrest⟩ := List.forall_mem_cons.1 h
    exact List.forall_mem_cons.2 ⟨hfirst, faithful_stepAt hs census place rest use hrest⟩

theorem faithful_follow (hs : scope.Untroubled) (census : Census) : ∀ (schedule : List Nat)
    (tasks : List (Task α)) (use : ScopeUse), (∀ task ∈ tasks, task.Faithful) →
    ∀ task ∈ (follow scope census schedule tasks use).1, task.Faithful
  | [], _, _, h => h
  | place :: schedule, tasks, use, h =>
    faithful_follow hs census schedule _ _ (faithful_stepAt hs census place tasks use h)

variable (scope) (census : Census) (schedule : List Nat) (works : List (Work α)) (use : ScopeUse)

/-- Every task comes to its end. -/
theorem not_abandoned : ∀ result ∈ (runAll scope census schedule works use).1,
    result ≠ .error .abandoned := by
  obtain ⟨fates, -, hresults, -⟩ := runAll_eq scope census schedule works use
  rw [hresults]
  intro result hr he
  obtain ⟨fate, -, hf⟩ := List.mem_map.1 hr
  rw [he] at hf
  cases hv : fate.2.verdict fate.1 <;> rw [hv] at hf <;> cases hf

/-- And it has the work that it had at the start. -/
theorem map_work_follow : (follow scope census schedule
    (works.map fun work => ({ work } : Task α)) use).1.map (·.work) = works := by
  obtain ⟨told, htasks, -, -, hworks⟩ := follow_told scope census schedule
    (works.map fun work => ((⟨work, .waiting⟩, []) : Telling α)) use fun p hp => by
      obtain ⟨work, -, rfl⟩ := List.mem_map.1 hp
      exact .waiting work
  simp only [List.map_map, Function.comp_def] at htasks hworks
  rw [htasks, List.map_map]
  exact hworks.trans (List.map_id' works)

variable {scope}

/-- **Each task comes to what its work comes to**, whatever the schedule. -/
theorem runAll_untroubled (hs : scope.Untroubled) :
    (runAll scope census schedule works use).1 = works.map fun work => work.result.mapError .work := by
  have hfaithful := faithful_follow hs census (schedule ++ inTurn works.length)
    (works.map fun work => ({ work } : Task α)) use fun task ht => by
      obtain ⟨work, -, rfl⟩ := List.mem_map.1 ht
      trivial
  have hworks := map_work_follow scope census (schedule ++ inTurn works.length) works use
  have hdone := not_abandoned scope census schedule works use
  unfold runAll at hdone ⊢
  simp only at hdone ⊢
  generalize (follow scope census (schedule ++ inTurn works.length)
    (works.map fun work => ({ work } : Task α)) use).1 = tasks at hfaithful hworks hdone ⊢
  rw [← hworks, List.map_map]
  exact List.map_congr_left fun task ht =>
    (hfaithful task ht).result (hdone _ (List.mem_map_of_mem ht))

/-- **What is seen** of works that do not fault is each of them between an opening and a closing, in
some interleaving. -/
theorem seen_untroubled (hs : scope.Untroubled) (hw : ∀ work ∈ works, ∃ a, work.result = .ok a) :
    (runAll scope census schedule works use).2.2.Perm
      (works.flatMap fun work => .scopeOpened :: work.occurrences ++ [.scopeClosed]) := by
  obtain ⟨fates, hworks, hresults, hseen⟩ := runAll_eq scope census schedule works use
  refine hseen.trans (List.Perm.of_eq ?_)
  rw [runAll_untroubled census schedule works use hs, ← hworks, List.map_map, List.map_inj_left]
    at hresults
  rw [← hworks, List.flatMap_map]
  refine List.flatMap_congr fun f hf => ?_
  obtain ⟨a, ha⟩ := hw f.1 (hworks ▸ List.mem_map_of_mem hf)
  have hresult := hresults f hf
  obtain ⟨work, opening, closing⟩ := f
  simp only [Function.comp_apply, Fate.verdict] at ha hresult
  rw [ha] at hresult
  -- the verdict would be a fault otherwise
  cases opening with
  | error fault => cases hresult
  | ok _ =>
    cases closing with
    | error fault => cases hresult
    | ok _ =>
      simp only [Fate.story, ha]
      simp [settle, closing, finish]

end Task

end EventScripts
