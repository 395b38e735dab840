import EventScripts.Pool.Bracket
/-!
# What becomes of tasks

Workers get on with tasks in any order, and share one scope. Whatever the order,
each task opens its scope once, and closes it once if it has opened; a `Fate` is
what the two come to. The fate of a task decides its verdict and everything that
is seen of it. `runAll_eq` says that each task meets some fate, and that what is
seen of all tasks are their stories, in some interleaving.
-/

namespace EventScripts

/-- What the opening and the closing of a task's scope come to. -/
structure Fate where
  opening : Except Fault Unit
  closing : Except Fault Unit

namespace Fate

variable {α : Type}

/-- What a piece of work comes to under a fate. -/
def verdict (fate : Fate) (work : Work α) : Except Fault α :=
  match fate.opening with
  | .error fault => .error fault
  | .ok () => Task.settle work.result fate.closing

/-- What is seen of a piece of work under a fate. -/
def story (census : Census) (fate : Fate) (work : Work α) : List Occurrence :=
  match fate.opening with
  | .error fault => .scopeOpened :: (Task.finish census (.error fault : Except Fault α)).2
  | .ok () => .scopeOpened :: work.occurrences
      ++ (Task.closing work.result fate.closing
        ++ (Task.finish census (Task.settle work.result fate.closing)).2)

end Fate

namespace Task

variable {α : Type}

/-- How many steps a task has left at most. -/
def left (task : Task α) : Nat :=
  match task.progress with
  | .waiting => 3
  | .opened => 2
  | .worked _ => 1
  | .done _ => 0

/-- What has been seen of a task so far. -/
inductive Told (census : Census) : Task α → List Occurrence → Prop where
  | waiting (work : Work α) : Told census ⟨work, .waiting⟩ []
  | opened (work : Work α) : Told census ⟨work, .opened⟩ [.scopeOpened]
  | worked (work : Work α) :
      Told census ⟨work, .worked work.result⟩ (.scopeOpened :: work.occurrences)
  | done (work : Work α) (fate : Fate) :
      Told census ⟨work, (finish census (fate.verdict work)).1⟩ (fate.story census work)

theorem finish_fst (census : Census) (verdict : Except Fault α) :
    (finish census verdict).1 = .done (verdict.mapError .work) := by
  cases verdict <;> rfl

theorem left_done (census : Census) (work : Work α) (verdict : Except Fault α) :
    left ⟨work, (finish census verdict).1⟩ = 0 := by
  rw [finish_fst]
  rfl

variable (scope : Scope) (census : Census)

/-- One step goes on with the story. -/
theorem Told.step {task : Task α} {story : List Occurrence} (h : Told census task story)
    (use : ScopeUse) :
    Told census (task.step scope census use).1 (story ++ (task.step scope census use).2.2) ∧
      (task.step scope census use).1.work = task.work := by
  cases h with
  | waiting work =>
    simp only [Task.step, Scope.openOnce]
    cases hopen : scope.opening use.opened with
    | error fault => exact ⟨.done work ⟨.error fault, .ok ()⟩, rfl⟩
    | ok _ => exact ⟨.opened work, rfl⟩
  | opened work => exact ⟨.worked work, rfl⟩
  | worked work => exact ⟨.done work ⟨.ok (), (scope.closeOnce use).2⟩, rfl⟩
  | done work fate =>
    simp only [Task.step, finish_fst]
    refine ⟨?_, trivial⟩
    rw [List.append_nil, ← finish_fst census]
    exact .done work fate

/-! ## Many tasks -/

/-- A task with what has been seen of it. -/
abbrev Telling (α : Type) := Task α × List Occurrence

/-- One step of one task, seen among all of them. -/
theorem stepAt_told : ∀ (place : Nat) (l : List (Telling α)) (use : ScopeUse),
    (∀ p ∈ l, Told census p.1 p.2) →
    ∃ l' : List (Telling α), (stepAt scope census place (l.map (·.1)) use).1 = l'.map (·.1) ∧
      (∀ p ∈ l', Told census p.1 p.2) ∧
      (l'.flatMap (·.2)).Perm
        (l.flatMap (·.2) ++ (stepAt scope census place (l.map (·.1)) use).2.2) ∧
      l'.map (·.1.work) = l.map (·.1.work)
  | place, [], use, h => ⟨[], by cases place <;> rfl, h, by cases place <;> exact .nil, rfl⟩
  | 0, p :: l, use, h => by
    obtain ⟨htold, hwork⟩ := (h p (by simp)).step scope census use
    refine ⟨((p.1.step scope census use).1, p.2 ++ (p.1.step scope census use).2.2) :: l, rfl,
      fun q hq => ?_, ?_, ?_⟩
    · rcases List.mem_cons.1 hq with rfl | hq
      · exact htold
      · exact h q (by simp [hq])
    · simp only [List.flatMap_cons, List.append_assoc]
      exact List.Perm.append_left _ List.perm_append_comm
    · rw [List.map_cons, List.map_cons, hwork]
  | place + 1, p :: l, use, h => by
    obtain ⟨l', hl, htold, hperm, hwork⟩ := stepAt_told place l use
      fun q hq => h q (by simp [hq])
    refine ⟨p :: l', by simp [stepAt, hl], fun q hq => ?_, ?_, by simp [hwork]⟩
    · rcases List.mem_cons.1 hq with rfl | hq
      · exact h q (by simp)
      · exact htold q hq
    · simp only [List.flatMap_cons, List.append_assoc]
      exact hperm.append_left _

/-- **Whatever the schedule**, what is seen are the stories so far, in some interleaving. -/
theorem follow_told : ∀ (schedule : List Nat) (l : List (Telling α)) (use : ScopeUse),
    (∀ p ∈ l, Told census p.1 p.2) →
    ∃ l' : List (Telling α), (follow scope census schedule (l.map (·.1)) use).1 = l'.map (·.1) ∧
      (∀ p ∈ l', Told census p.1 p.2) ∧
      (l'.flatMap (·.2)).Perm
        (l.flatMap (·.2) ++ (follow scope census schedule (l.map (·.1)) use).2.2) ∧
      l'.map (·.1.work) = l.map (·.1.work)
  | [], l, use, h => ⟨l, rfl, h, by simp [follow], rfl⟩
  | place :: schedule, l, use, h => by
    obtain ⟨mid, hm, htold, hperm, hwork⟩ := stepAt_told scope census place l use h
    simp only [follow]
    rw [hm]
    obtain ⟨l', hl, htold', hperm', hwork'⟩ := follow_told schedule mid
      (stepAt scope census place (l.map (·.1)) use).2.1 htold
    refine ⟨l', hl, htold', ?_, hwork'.trans hwork⟩
    rw [← List.append_assoc]
    exact hperm'.trans (hperm.append_right _)

/-! ## All tasks come to their end -/

theorem left_step (task : Task α) (use : ScopeUse) :
    (task.step scope census use).1.left ≤ task.left - 1 := by
  obtain ⟨work, progress⟩ := task
  cases progress with
  | waiting =>
    simp only [Task.step, Scope.openOnce]
    cases scope.opening use.opened with
    | error fault => simp only [left_done]; omega
    | ok _ => exact Nat.le_refl _
  | opened => exact Nat.le_refl _
  | worked result => simp only [Task.step, left_done]; omega
  | done result => exact Nat.zero_le _

theorem getElem?_stepAt : ∀ (place : Nat) (tasks : List (Task α)) (use : ScopeUse) (i : Nat)
    (task : Task α), tasks[i]? = some task →
    ∃ task', (stepAt scope census place tasks use).1[i]? = some task' ∧
      task'.left ≤ task.left - (if place = i then 1 else 0)
  | _, [], _, i, _, h => by simp at h
  | 0, first :: rest, use, 0, task, h => by
    obtain rfl : first = task := by simpa using h
    exact ⟨_, rfl, left_step scope census first use⟩
  | 0, first :: rest, use, i + 1, task, h => ⟨task, by simpa [stepAt] using h, by simp⟩
  | place + 1, first :: rest, use, 0, task, h => ⟨task, by simpa [stepAt] using h, by simp⟩
  | place + 1, first :: rest, use, i + 1, task, h => by
    obtain ⟨task', hget, hleft⟩ := getElem?_stepAt place rest use i task (by simpa using h)
    exact ⟨task', by simpa [stepAt] using hget, by simpa using hleft⟩

/-- A schedule takes each task as many steps further as it names the task's place. -/
theorem getElem?_follow : ∀ (schedule : List Nat) (tasks : List (Task α)) (use : ScopeUse)
    (i : Nat) (task : Task α), tasks[i]? = some task →
    ∃ task', (follow scope census schedule tasks use).1[i]? = some task' ∧
      task'.left ≤ task.left - schedule.count i
  | [], _, _, _, task, h => ⟨task, h, by simp⟩
  | place :: schedule, tasks, use, i, task, h => by
    obtain ⟨mid, hmid, hm⟩ := getElem?_stepAt scope census place tasks use i task h
    obtain ⟨task', hget, hleft⟩ := getElem?_follow schedule _
      (stepAt scope census place tasks use).2.1 i mid hmid
    refine ⟨task', hget, ?_⟩
    rw [List.count_cons]
    simp only [beq_iff_eq]
    split at hm <;> split <;> omega

theorem count_inTurn {i count : Nat} (h : i < count) : (inTurn count).count i = stepCount := by
  have hrep : ∀ j, (List.replicate stepCount j).count i = if j = i then stepCount else 0 := by
    intro j
    rw [List.count_replicate]
    simp
  induction count with
  | zero => omega
  | succ n ih =>
    have hn : ∀ m, m ≤ i → (inTurn m).count i = 0 := by
      intro m hm
      refine List.count_eq_zero.2 fun hi => ?_
      obtain ⟨j, hj, hi⟩ := List.mem_flatMap.1 hi
      rw [List.eq_of_mem_replicate hi] at hm
      have := List.mem_range.1 hj
      omega
    rw [inTurn, List.range_succ, List.flatMap_append, List.count_append]
    simp only [List.flatMap_cons, List.flatMap_nil, List.append_nil, hrep]
    by_cases hi : n = i
    · rw [if_pos hi]
      have := hn n (by omega)
      rw [inTurn] at this
      omega
    · rw [if_neg hi]
      exact ih (by omega)

theorem result_done (census : Census) (work : Work α) (verdict : Except Fault α) :
    result ⟨work, (finish census verdict).1⟩ = verdict.mapError .work := by
  rw [finish_fst]
  rfl

variable {census}

theorem Told.fate {task : Task α} {story : List Occurrence} (h : Told census task story)
    (hl : task.left = 0) :
    ∃ fate : Fate, task.result = (fate.verdict task.work).mapError .work ∧
      story = fate.story census task.work := by
  cases h with
  | waiting | opened | worked => cases hl
  | done work fate => exact ⟨fate, result_done _ _ _, rfl⟩

theorem exists_fates : ∀ (l : List (Telling α)), (∀ p ∈ l, Told census p.1 p.2) →
    (∀ p ∈ l, p.1.left = 0) →
    ∃ fates : List (Work α × Fate), fates.map (·.1) = l.map (·.1.work) ∧
      l.map (·.1.result) = fates.map (fun f => (f.2.verdict f.1).mapError .work) ∧
      l.flatMap (·.2) = fates.flatMap fun f => f.2.story census f.1
  | [], _, _ => ⟨[], rfl, rfl, rfl⟩
  | p :: l, h, hl => by
    obtain ⟨fate, hresult, hstory⟩ := (h p (by simp)).fate (hl p (by simp))
    obtain ⟨fates, hworks, hresults, hstories⟩ := exists_fates l (fun q hq => h q (by simp [hq]))
      fun q hq => hl q (by simp [hq])
    refine ⟨(p.1.work, fate) :: fates, ?_, ?_, ?_⟩
    · simp [hworks]
    · simp [hresult, hresults]
    · simp [hstory, hstories]

variable (census)

/-- **Every task meets a fate**, whatever the schedule: the results are the verdicts, and what is
seen are the stories of the tasks, in some interleaving. -/
theorem runAll_eq (schedule : List Nat) (works : List (Work α)) (use : ScopeUse) :
    ∃ fates : List (Work α × Fate), fates.map (·.1) = works ∧
      (runAll scope census schedule works use).1
        = fates.map (fun f => (f.2.verdict f.1).mapError .work) ∧
      (runAll scope census schedule works use).2.2.Perm
        (fates.flatMap fun f => f.2.story census f.1) := by
  have hstart : (works.map fun work => ((⟨work, .waiting⟩, []) : Telling α)).map (·.1)
      = works.map fun work => ({ work } : Task α) := by
    rw [List.map_map]
    rfl
  obtain ⟨l, hl, htold, hperm, hworks⟩ := follow_told scope census
    (schedule ++ inTurn works.length) (works.map fun work => ((⟨work, .waiting⟩, []) : Telling α))
    use fun p hp => by
      obtain ⟨work, -, rfl⟩ := List.mem_map.1 hp
      exact .waiting work
  rw [hstart] at hl hperm
  have hdone : ∀ p ∈ l, p.1.left = 0 := by
    intro p hp
    obtain ⟨i, hi⟩ := List.getElem?_of_mem hp
    have hlen : l.length = works.length := by simpa using congrArg List.length hworks
    have hilt : i < works.length := hlen ▸ (List.getElem?_eq_some_iff.1 hi).1
    obtain ⟨task', hget, hleft⟩ := getElem?_follow scope census
      (schedule ++ inTurn works.length) (works.map fun work => ({ work } : Task α)) use i
      { work := works[i] } (by simp [hilt])
    rw [hl, List.getElem?_map, hi] at hget
    rw [List.count_append, count_inTurn hilt] at hleft
    obtain rfl : p.1 = task' := by simpa using hget
    have : ({ work := works[i] } : Task α).left = 3 := rfl
    simp only [stepCount] at hleft
    omega
  obtain ⟨fates, hf, hresults, hstories⟩ := exists_fates l htold hdone
  refine ⟨fates, ?_, ?_, ?_⟩
  · rw [hf, hworks, List.map_map]
    exact List.map_id' works
  · rw [← hresults]
    simp only [runAll]
    rw [hl, List.map_map]
    rfl
  · have hnil : (works.map fun work =>
        ((⟨work, .waiting⟩, []) : Telling α)).flatMap (·.2) = [] := by simp
    rw [hnil, List.nil_append, hstories] at hperm
    exact hperm.symm

end Task

end EventScripts
