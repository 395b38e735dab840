import EventScripts.Proofs.Pool.Moves
/-!
# The operations of a pool are runs of moves

Submitting a task, changing the size, letting the workers get on and closing the
pool come about by single moves of the owner and of the workers. So what holds
after any moves, in any order, holds after the operations.
-/

namespace EventScripts

namespace Pool

variable {τ α : Type}

/-- Any number of steps of workers. -/
abbrev Steps : Pool τ → Pool τ → Prop := Relation.ReflTransGen Step

theorem distinct_steps {before after : Pool τ} (h : Steps before after) (hd : before.Distinct) :
    after.Distinct := by
  induction h with
  | refl => exact hd
  | tail _ hstep ih => exact distinct_step hstep ih

/-! ## Getting on with what is not held up -/

theorem Distinct.give_worker {pool : Pool τ} {front back : List (Worker τ)} {worker : Worker τ}
    (hd : pool.Distinct) (hw : pool.workers = front ++ worker :: back) (task : Option τ) :
    pool.workers.map (Worker.give worker.id task) = front ++ { worker with task } :: back ∧
      pool.retired.map (Worker.give worker.id task) = pool.retired := by
  have hids := hd.ids
  rw [hw, List.append_assoc, List.cons_append] at hids
  have hother := id_other hids
  rw [← List.append_assoc, List.map_append, List.mem_append, not_or] at hother
  exact ⟨hw ▸ map_give task hother.1, give_other task hother.2⟩

theorem Distinct.give_retired {pool : Pool τ} {front back : List (Worker τ)} {worker : Worker τ}
    (hd : pool.Distinct) (hw : pool.retired = front ++ worker :: back) (task : Option τ) :
    pool.workers.map (Worker.give worker.id task) = pool.workers ∧
      pool.retired.map (Worker.give worker.id task) = front ++ { worker with task } :: back := by
  have hids := hd.ids
  rw [hw, ← List.append_assoc] at hids
  have hother := id_other hids
  rw [List.append_assoc, List.map_append, List.mem_append, not_or] at hother
  exact ⟨give_other task hother.1, hw ▸ map_give task hother.2⟩

/-- The workers behind the first ones take tasks in turn. -/
theorem steps_assign : ∀ (front workers : List (Worker τ)) (queue : List τ) {pool : Pool τ},
    pool.Distinct → pool.workers = front ++ workers → pool.queue = queue →
    Steps pool { pool with
      workers := front ++ (assign workers queue).1
      queue := (assign workers queue).2.1
      started := pool.started ++ (assign workers queue).2.2 }
  | front, [], queue, pool, _, hw, hq => by
    simp only [assign, ← hw, ← hq, List.append_nil]
    exact .refl
  | front, worker :: workers, [], pool, _, hw, hq => by
    simp only [assign, ← hw, ← hq, List.append_nil]
    exact .refl
  | front, worker :: workers, task :: queue, pool, hd, hw, hq => by
    cases hi : worker.task with
    | some other =>
      have hrest := steps_assign (front ++ [worker]) workers (task :: queue) hd (by simp [hw]) hq
      simpa only [assign, hi, List.append_assoc, List.singleton_append] using hrest
    | none =>
      obtain ⟨hworkers, hretired⟩ := hd.give_worker hw (some task)
      have htake := Step.take hq (List.mem_append_left _ (hw ▸ by simp)) hi
      rw [hworkers, hretired] at htake
      have hrest := steps_assign (front ++ [{ worker with task := some task }]) workers queue
        (distinct_step htake hd) (by simp) rfl
      simp only [assign, hi]
      simpa only [List.append_assoc, List.singleton_append] using
        Relation.ReflTransGen.head htake hrest

theorem steps_takeAll {pool : Pool τ} (hd : pool.Distinct) : Steps pool pool.takeAll :=
  steps_assign [] pool.workers pool.queue hd rfl rfl

theorem proceed_cases (held : τ → Bool) (worker : Worker τ) :
    (∃ task, worker.task = some task ∧
      Worker.proceed held worker = ({ worker with task := none }, some task)) ∨
    Worker.proceed held worker = (worker, none) := by
  unfold Worker.proceed
  cases worker.task with
  | none => exact .inr rfl
  | some task =>
    simp only
    split
    · exact .inr rfl
    · exact .inl ⟨task, rfl, rfl⟩

variable (held : τ → Bool)

/-- The workers behind the first ones finish what is not held up. -/
theorem steps_proceed : ∀ (front workers : List (Worker τ)) {pool : Pool τ},
    pool.Distinct → pool.workers = front ++ workers →
    Steps pool { pool with
      workers := front ++ workers.map (Worker.proceed held · |>.1)
      finished := pool.finished ++ workers.filterMap (Worker.proceed held · |>.2) }
  | front, [], pool, _, hw => by
    simp only [List.map_nil, ← hw, List.filterMap_nil, List.append_nil]
    exact .refl
  | front, worker :: workers, pool, hd, hw => by
    rcases proceed_cases held worker with ⟨task, ht, hp⟩ | hp
    · obtain ⟨hworkers, hretired⟩ := hd.give_worker hw none
      have hmem : worker ∈ pool.workers := by simp [hw]
      have hfinish := Step.finish (List.mem_append_left _ hmem) ht
      rw [hworkers, hretired] at hfinish
      have hrest := steps_proceed (front ++ [{ worker with task := none }]) workers
        (distinct_step hfinish hd) (by simp)
      simp only [List.map_cons, List.filterMap_cons, hp]
      simpa only [List.append_assoc, List.singleton_append] using
        Relation.ReflTransGen.head hfinish hrest
    · have hrest := steps_proceed (front ++ [worker]) workers hd (by simp [hw])
      simp only [List.map_cons, List.filterMap_cons, hp]
      simpa only [List.append_assoc, List.singleton_append] using hrest

/-- The retired workers behind the first ones finish what is not held up, and leave. -/
theorem steps_leave : ∀ (front retired : List (Worker τ)) {pool : Pool τ},
    pool.Distinct → pool.retired = front ++ retired →
    Steps pool { pool with
      retired := front ++ (retired.map (Worker.proceed held · |>.1)).filter (·.task.isSome)
      finished := pool.finished ++ retired.filterMap (Worker.proceed held · |>.2) }
  | front, [], pool, _, hr => by
    simp only [List.map_nil, List.filter_nil, ← hr, List.filterMap_nil, List.append_nil]
    exact .refl
  | front, worker :: retired, pool, hd, hr => by
    rcases proceed_cases held worker with ⟨task, ht, hp⟩ | hp
    · obtain ⟨hworkers, hretired⟩ := hd.give_retired hr none
      have hmem : worker ∈ pool.retired := by simp [hr]
      have hfinish := Step.finish (List.mem_append_right _ hmem) ht
      rw [hworkers, hretired] at hfinish
      have hleave : Step
          { pool with
            retired := front ++ { worker with task := none } :: retired
            finished := pool.finished ++ [task] }
          { pool with retired := front ++ retired, finished := pool.finished ++ [task] } :=
        .leave rfl rfl
      have hrest := steps_leave front retired (distinct_step hleave (distinct_step hfinish hd)) rfl
      simp only [List.map_cons, List.filterMap_cons, hp, List.filter_cons, Option.isSome_none,
        Bool.false_eq_true, if_false]
      simpa only [List.append_assoc, List.singleton_append] using
        Relation.ReflTransGen.head hfinish (Relation.ReflTransGen.head hleave hrest)
    · cases ht : worker.task with
      | some task =>
        have hrest := steps_leave (front ++ [worker]) retired hd (by simp [hr])
        simp only [List.map_cons, List.filterMap_cons, hp, List.filter_cons, ht, Option.isSome_some,
          if_true]
        simpa only [List.append_assoc, List.singleton_append] using hrest
      | none =>
        have hleave := Step.leave hr ht
        have hrest := steps_leave front retired (distinct_step hleave hd) rfl
        simp only [List.map_cons, List.filterMap_cons, hp, List.filter_cons, ht]
        exact Relation.ReflTransGen.head hleave hrest

theorem steps_finishAll {pool : Pool τ} (hd : pool.Distinct) :
    Steps pool (pool.finishAll held) := by
  have hworkers := steps_proceed held [] pool.workers hd rfl
  have hretired := steps_leave held [] pool.retired (distinct_steps hworkers hd) rfl
  have hboth := hworkers.trans hretired
  simp only [List.nil_append, List.append_assoc] at hboth
  simpa only [finishAll, List.map_map, List.filterMap_append, List.filterMap_map,
    Function.comp_def] using hboth

theorem steps_rounds : ∀ (n : Nat) {pool : Pool τ}, pool.Distinct →
    Steps pool (pool.rounds held n)
  | 0, _, _ => .refl
  | n + 1, pool, hd => by
    have htake := steps_takeAll hd
    have hfinish := steps_finishAll held (distinct_steps htake hd)
    exact (htake.trans hfinish).trans
      (steps_rounds n (distinct_steps (htake.trans hfinish) hd))

theorem steps_settle {pool : Pool τ} (hd : pool.Distinct) : Steps pool (pool.settle held) :=
  steps_rounds held _ hd

/-! ## When nothing is held up -/

/-- Nobody is at work but workers that stay, and these wait for tasks. -/
def Idle (pool : Pool τ) : Prop := (∀ worker ∈ pool.workers, worker.task = none) ∧ pool.retired = []

theorem proceed_all (worker : Worker τ) :
    (Worker.proceed (fun _ => false) worker).1.task = none := by
  unfold Worker.proceed
  cases ht : worker.task with
  | none => exact ht
  | some task => rfl

theorem idle_finishAll (pool : Pool τ) : (pool.finishAll fun _ => false).Idle := by
  refine ⟨fun worker hw => ?_, List.filter_eq_nil_iff.2 fun worker hw => ?_⟩
  · simp only [finishAll, List.map_map] at hw
    obtain ⟨before, -, rfl⟩ := List.mem_map.1 hw
    exact proceed_all before
  · rw [List.map_map] at hw
    obtain ⟨before, -, rfl⟩ := List.mem_map.1 hw
    simp [proceed_all]

theorem length_assign : ∀ (workers : List (Worker τ)) (queue : List τ),
    (assign workers queue).1.length = workers.length
  | [], _ => rfl
  | _ :: _, [] => rfl
  | worker :: workers, task :: queue => by
    cases hi : worker.task <;> simp [assign, hi, length_assign workers]

theorem queue_assign_le : ∀ (workers : List (Worker τ)) (queue : List τ),
    (assign workers queue).2.1.length ≤ queue.length
  | [], _ => Nat.le_refl _
  | _ :: _, [] => Nat.le_refl _
  | worker :: workers, task :: queue => by
    cases hi : worker.task with
    | some other => simpa only [assign, hi] using queue_assign_le workers (task :: queue)
    | none =>
      simp only [assign, hi, List.length_cons]
      exact Nat.le_succ_of_le (queue_assign_le workers queue)

/-- One round of workers that wait makes the queue shorter, unless nobody is there. -/
theorem queue_round {pool : Pool τ} (hi : pool.Idle) (hw : pool.workers ≠ []) :
    (finishAll (fun _ => false) pool.takeAll).queue.length ≤ pool.queue.length - 1 := by
  change (assign pool.workers pool.queue).2.1.length ≤ _
  cases hworkers : pool.workers with
  | nil => exact absurd hworkers hw
  | cons worker workers =>
    cases hq : pool.queue with
    | nil => exact Nat.le_refl _
    | cons task queue =>
      have ht : worker.task = none := hi.1 worker (by simp [hworkers])
      simp only [assign, ht]
      exact queue_assign_le workers queue

theorem workers_round (pool : Pool τ) :
    (finishAll (fun _ => false) pool.takeAll).workers.length = pool.workers.length := by
  change (((assign pool.workers pool.queue).1.map _).map _).length = _
  rw [List.length_map, List.length_map, length_assign]

theorem idle_rounds : ∀ (n : Nat) {pool : Pool τ}, pool.Idle → pool.workers ≠ [] →
    pool.queue.length ≤ n →
    (pool.rounds (fun _ => false) n).Idle ∧ (pool.rounds (fun _ => false) n).queue = []
  | 0, _, hi, _, hq => ⟨hi, List.length_eq_zero_iff.1 (Nat.le_zero.1 hq)⟩
  | n + 1, pool, hi, hw, hq => by
    have hround := queue_round hi hw
    refine idle_rounds n (idle_finishAll _) (fun hnil => hw ?_) (by omega)
    rw [← List.length_eq_zero_iff, ← workers_round pool, hnil]
    rfl

/-- With nothing held up, the workers come to the end of the queue. -/
theorem idle_settle {pool : Pool τ} (hq : pool.workers = [] → pool.queue = []) :
    (pool.settle fun _ => false).Idle ∧ (pool.settle fun _ => false).queue = [] := by
  have hround := idle_finishAll pool.takeAll
  by_cases hw : pool.workers = []
  · have hnil := hq hw
    have hsettle : pool.settle (fun _ => false) = finishAll (fun _ => false) pool.takeAll := by
      rw [settle, hnil]
      rfl
    refine ⟨hsettle ▸ hround, ?_⟩
    rw [hsettle]
    change (assign pool.workers pool.queue).2.1 = []
    rw [hw, hnil]
    rfl
  · refine idle_rounds pool.queue.length hround (fun hnil => hw ?_) (queue_assign_le _ _)
    rw [← List.length_eq_zero_iff, ← workers_round pool, hnil]
    rfl

namespace State

variable {s : State α}

/-! ## The owner's operations -/

theorem finished_of_step {before after : Pool τ} (h : Step before after) :
    after.finished = before.finished ∨ ∃ task, after.finished = before.finished ++ [task] := by
  cases h with
  | take | leave => exact .inl rfl
  | @finish task => exact .inr ⟨task, rfl⟩

/-- What the workers do are moves, whatever fates the tasks meet. -/
theorem moves_of_steps (fate : Fate) {pool : Pool (Job α)} (h : Steps s.pool pool) :
    ∃ t, Moves s t ∧ t.pool = pool ∧ t.duty = s.duty ∧ t.submitted = s.submitted ∧
      t.sizes = s.sizes := by
  induction h with
  | refl => exact ⟨s, .refl, rfl, rfl, rfl, rfl⟩
  | @tail before after _ hstep ih =>
    obtain ⟨t, hmoves, hpool, hduty, hsubmitted, hsizes⟩ := ih
    subst hpool
    rcases finished_of_step hstep with hf | ⟨job, hf⟩
    · exact ⟨_, hmoves.tail (.work hstep hf), rfl, hduty, hsubmitted, hsizes⟩
    · exact ⟨_, hmoves.tail (.finish hstep hf fate), rfl, hduty, hsubmitted, hsizes⟩

theorem moves_settle (hs : s.Steady) (fate : Fate) (held : Job α → Bool) :
    ∃ t, Moves s t ∧ t.pool = s.pool.settle held ∧ t.duty = s.duty ∧
      t.submitted = s.submitted ∧ t.sizes = s.sizes :=
  moves_of_steps fate (steps_settle held hs.distinct)

theorem exists_endHere {job : Job α} (hd : s.duty.job? = some job) (fate : Fate) :
    ∃ t, Move s t ∧ t.pool = { s.pool with finished := s.pool.finished ++ [job] } ∧
      t.duty = s.duty.rest ∧ t.submitted = s.submitted ∧ t.sizes = s.sizes :=
  ⟨_, .endHere hd fate, rfl, rfl, rfl, rfl⟩

theorem moves_submit (hd : s.duty = .idle) (fate : Fate) (work : Work α) :
    ∃ t, Moves s t ∧ t.pool = s.pool.submit (s.next work) ∧ t.duty = .idle ∧
      t.submitted = s.submitted ++ [s.next work] ∧ t.sizes = s.sizes := by
  by_cases ha : s.pool.isAsync
  · exact ⟨_, .single (.submit work hd ha), rfl, hd, rfl, rfl⟩
  · obtain ⟨t, hend, hpool, hduty, hsubmitted, hsizes⟩ := exists_endHere
      (s := { s.startHere (s.next work) (.running (s.next work)) with
        submitted := s.submitted ++ [s.next work] }) rfl fate
    refine ⟨t, .head (.submitHere work hd ha) (.single hend), ?_, hduty, hsubmitted, hsizes⟩
    simp [hpool, Pool.submit, ha, runHere, startHere]

/-- The owner empties the queue. -/
theorem moves_drain (fate : Fate) : ∀ (queue : List (Job α)) {s : State α},
    s.duty = .draining none → s.pool.queue = queue →
    ∃ t, Moves s t ∧ t.pool = s.pool.drain ∧ t.duty = .idle ∧ t.submitted = s.submitted ∧
      t.sizes = s.sizes
  | [], s, hd, hq => by
    refine ⟨_, .single (.drained hd hq), ?_, rfl, rfl, rfl⟩
    simp only [drain, runHere, hq, List.map_nil, List.append_nil]
    rw [← hq]
  | job :: queue, s, hd, hq => by
    obtain ⟨mid, hend, hpool, hduty, hsubmitted, hsizes⟩ := exists_endHere
      (s := { s with pool := { s.pool with queue } }.startHere job (.draining (some job))) rfl fate
    obtain ⟨t, hmoves, htpool, htduty, htsubmitted, htsizes⟩ := moves_drain fate queue hduty
      (by rw [hpool]; rfl)
    refine ⟨t, .head (.drain hd hq) (.head hend hmoves), ?_, htduty,
      htsubmitted.trans hsubmitted, htsizes.trans hsizes⟩
    simp [htpool, hpool, startHere, drain, runHere, hq]

theorem moves_resize (hd : s.duty = .idle) (fate : Fate) (size : Nat) :
    ∃ t, Moves s t ∧ t.pool = s.pool.resize size ∧ t.duty = .idle ∧
      t.submitted = s.submitted ∧ t.sizes = s.sizes ++ [size] := by
  by_cases hs : size = 0 → s.pool.size = 0
  · exact ⟨_, .single (.resize size hd hs), rfl, hd, rfl, rfl⟩
  · rw [Classical.not_imp] at hs
    obtain ⟨rfl, hpos⟩ := hs
    have hlt : 0 < s.pool.size := Nat.pos_of_ne_zero hpos
    obtain ⟨t, hmoves, hpool, hduty, hsubmitted, hsizes⟩ := moves_drain fate s.pool.queue
      (s := { s with pool := s.pool.shrink 0, duty := .draining none, sizes := s.sizes ++ [0] })
      rfl rfl
    refine ⟨t, .head (.empty hd hlt) hmoves, ?_, hduty, hsubmitted, hsizes⟩
    rw [hpool, resize, if_pos hlt, if_pos rfl]

/-- Workers without a task leave a pool that was dropped, once its queue is empty. -/
theorem moves_part : ∀ (workers : List (Worker (Job α))) {s : State α}, s.duty = .closing →
    s.pool.queue = [] → s.pool.workers = workers → s.pool.Idle →
    Moves s { s with pool := { s.pool with workers := [], retired := [] }, duty := .closed }
  | [], s, hd, hq, hw, hi => by
    obtain ⟨⟨queue, current, retired, _, _, _⟩, _, _, _, _, _⟩ := s
    obtain rfl : current = [] := hw
    obtain rfl : retired = [] := hi.2
    exact .single (.closed hd rfl rfl)
  | worker :: workers, s, hd, hq, hw, hi => by
    have hfirst : s.pool.workers = [] ++ worker :: workers := hw
    have hpart := Move.part hd hq hfirst (hi.1 worker (by simp [hw]))
    have hrest := moves_part workers (s := { s with pool := { s.pool with workers } }) hd hq rfl
      ⟨fun other ho => hi.1 other (by simp [hw, ho]), hi.2⟩
    exact .head hpart hrest

/-- A pool that was dropped comes to its end, by what `Pool.close` does. -/
theorem moves_close (hs : s.Steady) (hd : s.duty = .closing) (fate : Fate) :
    ∃ t, Moves s t ∧ t.pool = s.pool.close ∧ t.duty = .closed ∧ t.submitted = s.submitted ∧
      t.sizes = s.sizes := by
  have hq : s.pool.workers = [] → s.pool.queue = [] := fun hw =>
    (hs.queue hw).resolve_left fun ⟨job, hj⟩ => by simp [hd] at hj
  obtain ⟨hidle, hqueue⟩ := idle_settle hq
  obtain ⟨t, hmoves, hpool, hduty, hsubmitted, hsizes⟩ := moves_settle hs fate fun _ => false
  rw [← hpool] at hidle hqueue
  refine ⟨_, hmoves.trans (moves_part _ (hduty.trans hd) hqueue rfl hidle), ?_, rfl, hsubmitted,
    hsizes⟩
  rw [hpool]
  rfl

end State

/-! ## A session -/

/-- What the owner of a pool does, and the workers getting on with what is not held up. -/
inductive Operation (α : Type) where
  | submit (work : Work α)
  | resize (size : Nat)
  | settle (held : Job α → Bool)

/-- A pool after an operation, with all tasks that ever were submitted. -/
def Operation.apply : Pool (Job α) × List (Job α) → Operation α → Pool (Job α) × List (Job α)
  | (pool, submitted), submit work =>
    let job : Job α := ⟨submitted.length, work⟩
    (pool.submit job, submitted ++ [job])
  | (pool, submitted), resize size => (pool.resize size, submitted)
  | (pool, submitted), settle held => (pool.settle held, submitted)

namespace State

variable {s : State α}

theorem moves_operation (hs : s.Steady) (hd : s.duty = .idle) (op : Operation α) :
    ∃ t, Moves s t ∧ t.duty = .idle ∧
      (t.pool, t.submitted) = op.apply (s.pool, s.submitted) := by
  -- the fates that tasks meet make no difference to the pool
  have fate : Fate := ⟨.ok (), .ok ()⟩
  cases op with
  | submit work =>
    obtain ⟨t, hmoves, hpool, hduty, hsubmitted, -⟩ := moves_submit hd fate work
    exact ⟨t, hmoves, hduty, Prod.ext hpool hsubmitted⟩
  | resize size =>
    obtain ⟨t, hmoves, hpool, hduty, hsubmitted, -⟩ := moves_resize hd fate size
    exact ⟨t, hmoves, hduty, Prod.ext hpool hsubmitted⟩
  | settle held =>
    obtain ⟨t, hmoves, hpool, hduty, hsubmitted, -⟩ := moves_settle hs fate held
    exact ⟨t, hmoves, hduty.trans hd, Prod.ext hpool hsubmitted⟩

/-- **Operations are runs of moves**, one after another. -/
theorem moves_operations : ∀ (ops : List (Operation α)) {s : State α}, s.Steady →
    s.duty = .idle → ∃ t, Moves s t ∧ t.duty = .idle ∧
      (t.pool, t.submitted) = ops.foldl Operation.apply (s.pool, s.submitted)
  | [], s, _, hd => ⟨s, .refl, hd, rfl⟩
  | op :: ops, s, hs, hd => by
    obtain ⟨mid, hfirst, hmid, happly⟩ := moves_operation hs hd op
    obtain ⟨t, hrest, ht, hall⟩ := moves_operations ops (steady_moves hfirst hs) hmid
    exact ⟨t, hfirst.trans hrest, ht, by rw [hall, happly, List.foldl_cons]⟩

end State

end Pool

end EventScripts
