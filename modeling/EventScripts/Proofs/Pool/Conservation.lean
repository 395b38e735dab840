import EventScripts.Proofs.Pool.Books
import EventScripts.Proofs.Pool.Operations
import Mathlib.Tactic.Common
/-!
# No task is lost, and none runs twice

However a pool is used and however its workers get on, every submitted task is
at each moment in one place only, starts once at most, and its handle has one
result when it is completed, an error if and only if that was reported. When a
resize to nothing has returned nothing is left in the queue, and when the pool
was dropped everything is completed. A pool of one worker, or of none, that is
never resized does one task at a time, in the order in which they came
(`conserved_of_reachable`). This is said of moves, which are all that the
operations of a pool come to (`refines_moves`).

In the words of `SPEC_FULL.md` §8: K tasks have exactly K completions, no duplicates,
no drops.
-/

namespace EventScripts

namespace Pool

variable {α : Type}

/-- Where a task is. -/
inductive Place where
  | queued
  | worker (id : Nat)
  | caller
  | completed
deriving DecidableEq, Repr

namespace State

variable {s t : State α} {size : Nat}

/-- The tasks that have started, with the places where they are. -/
def begun (s : State α) : List (Place × Job α) :=
  ((s.pool.workers ++ s.pool.retired).filterMap fun worker =>
      worker.task.map (.worker worker.id, ·))
    ++ s.duty.job?.toList.map (.caller, ·)
    ++ s.pool.finished.map (.completed, ·)

/-- All tasks, with the places where they are. -/
def holdings (s : State α) : List (Place × Job α) := s.pool.queue.map (.queued, ·) ++ s.begun

/-- What is true of the tasks of a pool at each moment. -/
structure Conserved (s : State α) : Prop where
  /-- Every submitted task is in one place. -/
  placed : ∀ job ∈ s.submitted, ∃ place,
    s.holdings.filter (·.2.number == job.number) = [(place, job)]
  /-- Nothing else is anywhere. -/
  submitted : ∀ held ∈ s.holdings, held.2 ∈ s.submitted
  /-- No task starts twice. -/
  startedOnce : (s.pool.started.map (·.1.number)).Nodup
  /-- A task has started unless it is in the queue. -/
  started : ∀ job ∈ s.submitted,
    job ∈ s.pool.started.map (·.1) ↔ ∃ place ≠ .queued, (place, job) ∈ s.holdings
  /-- No handle gets two results. -/
  answeredOnce : (s.results.map (·.1)).Nodup
  /-- A handle has a result if its task is completed, and it is what the task has come to. -/
  answered : ∀ job ∈ s.submitted, (.completed, job) ∈ s.holdings ↔
    ∃ fate : Fate, (job.number, (fate.verdict job.work).mapError .work) ∈ s.results
  /-- There is one report at most for a task, and one if and only if the result is an error. -/
  reported : ∀ number, (s.reports.filter (·.1 == number)).length ≤ 1 ∧
    ((s.reports.filter (·.1 == number)).length = 1 ↔ ∃ fault, (number, .error fault) ∈ s.results)
  /-- The reports are of these errors. -/
  reports : ∀ report ∈ s.reports, ∃ fault,
    (report.1, .error fault) ∈ s.results ∧ report.2 = .reported (.workFailed fault) {}
  /-- When a resize to nothing has returned, the queue is empty. -/
  emptied : s.duty = .idle → s.sizes.getLast? = some 0 → s.pool.queue = []
  /-- Whatever is done with the pool next comes about by moves. -/
  operations : s.duty = .idle → ∀ ops : List (Operation α), ∃ t, Moves s t ∧
    t.duty = .idle ∧ (t.pool, t.submitted) = ops.foldl Operation.apply (s.pool, s.submitted)
  /-- A pool that is dropped comes to its end, -/
  ends : s.duty = .closing → ∃ t, Moves s t ∧ t.duty = .closed ∧ t.pool = s.pool.close ∧
    t.submitted = s.submitted
  /-- and then every submitted task is completed and has its result. -/
  ended : s.duty = .closed → ∀ job ∈ s.submitted,
    s.holdings.filter (·.2.number == job.number) = [(.completed, job)] ∧
      ∃ result, s.results.filter (·.1 == job.number) = [(job.number, result)]
  /-- One worker, or none, at all times: the tasks start as they came, and one at a time. -/
  serial : ∀ size ≤ 1, (∀ asked ∈ s.sizes, asked = size) →
    s.pool.started.map (·.1) <+: s.submitted ∧ s.atWork.length ≤ 1

/-! ## What holds of all reachable states -/

theorem sound_start (size : Nat) : (start size : State α).books.Sound := by
  have hbooks : (start size : State α).books = ⟨[], [], [], [], [], [], []⟩ := by
    have hbusy : (ofSize size : Pool (Job α)).busy = [] := busy_grow {} size
    simp only [books, atWork_eq, start, hbusy]
    rfl
  rw [hbooks]
  exact ⟨rfl, rfl, .refl _, .nil, rfl⟩

theorem sound_of_reachable (h : Reachable size s) : s.books.Sound := by
  induction h with
  | refl => exact sound_start size
  | tail hmoves hmove ih =>
    exact Books.sound_entry (entry_of_move hmove (steady_of_reachable hmoves)) ih

/-! ## Places -/

theorem map_begun (s : State α) : s.begun.map (·.2) = s.atWork ++ s.pool.finished := by
  have hworkers : ∀ workers : List (Worker (Job α)),
      (workers.filterMap fun worker => worker.task.map fun job => (Place.worker worker.id, job)).map
        (·.2) = workers.filterMap (·.task) := by
    intro workers
    rw [List.map_filterMap]
    refine List.filterMap_congr fun worker _ => ?_
    cases worker.task <;> rfl
  simp only [begun, List.map_append, hworkers, List.map_map, Function.comp_def, List.map_id',
    atWork]

theorem map_holdings (s : State α) :
    s.holdings.map (·.2) = s.pool.queue ++ (s.atWork ++ s.pool.finished) := by
  simp only [holdings, List.map_append, List.map_map, Function.comp_def, List.map_id', map_begun]

theorem mem_holdings_completed {job : Job α} :
    (Place.completed, job) ∈ s.holdings ↔ job ∈ s.pool.finished := by
  simp [holdings, begun]

theorem queued_not_mem_begun {job : Job α} : (Place.queued, job) ∉ s.begun := by
  simp [begun]

theorem mem_holdings_begun {job : Job α} :
    (∃ place ≠ Place.queued, (place, job) ∈ s.holdings) ↔ job ∈ s.atWork ++ s.pool.finished := by
  rw [← map_begun]
  constructor
  · rintro ⟨place, hp, hmem⟩
    rcases List.mem_append.1 hmem with hq | hb
    · obtain ⟨_, -, he⟩ := List.mem_map.1 hq
      exact absurd (congrArg Prod.fst he).symm hp
    · exact List.mem_map_of_mem hb
  · intro hmem
    obtain ⟨⟨place, _⟩, hb, rfl⟩ := List.mem_map.1 hmem
    exact ⟨place, fun hp => queued_not_mem_begun (hp ▸ hb), List.mem_append_right _ hb⟩

theorem filter_eq_singleton {β : Type} (key : β → Nat) {items : List β} {item : β}
    (hn : (items.map key).Nodup) (hi : item ∈ items) :
    items.filter (key · == key item) = [item] := by
  obtain ⟨front, back, rfl⟩ := List.append_of_mem hi
  rw [List.map_append, List.map_cons, List.nodup_middle, List.nodup_cons, ← List.map_append] at hn
  have hother : ∀ other ∈ front ++ back, ¬ (key other == key item) = true := fun other ho he =>
    hn.1 (beq_iff_eq.1 he ▸ List.mem_map_of_mem ho)
  rw [List.filter_append, List.filter_cons, if_pos (beq_self_eq_true (key item)),
    List.filter_eq_nil_iff.2 fun other ho => hother other (List.mem_append_left _ ho),
    List.filter_eq_nil_iff.2 fun other ho => hother other (List.mem_append_right _ ho),
    List.nil_append]

/-! ## One worker at most -/

/-- One worker at most, and none that was asked to stop. -/
def Single (s : State α) : Prop := s.pool.size ≤ 1 ∧ s.pool.retired = []

theorem sizes_of_move (hm : Move s t) : ∀ asked ∈ s.sizes, asked ∈ t.sizes := by
  intro asked ha
  cases hm with
  | resize | empty => exact List.mem_append_left _ ha
  | _ => exact ha

theorem single_move (hm : Move s t) (hs : s.Steady) {n : Nat}
    (hn : ∀ asked ∈ t.sizes, asked = n) (h : s.Single) : t.Single := by
  have hsize : s.duty = .idle → s.pool.size = n := by
    intro hd
    rcases hs.asked with hc | hc | hlast
    · simp [hd] at hc
    · simp [hd] at hc
    · exact hn _ (sizes_of_move hm _ (List.mem_of_getLast? hlast))
  cases hm with
  | submit work hd ha => simpa [Single, Pool.submit, ha, Pool.size] using h
  | submitHere | endHere | drain | drained | close | closed => exact h
  | resize size hd hsz =>
    obtain rfl : size = s.pool.size := (hn size (by simp)).trans (hsize hd).symm
    refine ⟨by simpa only [size_resize] using h.1, ?_⟩
    simpa [resize, grow] using h.2
  | empty hd hsz =>
    have hzero : 0 = n := hn 0 (by simp)
    have := hsize hd
    omega
  | work hp | finish hp =>
    obtain ⟨-, hretired, -⟩ := workers_of_step hp
    rw [h.2, List.map_nil, List.sublist_nil, List.map_eq_nil_iff] at hretired
    exact ⟨Nat.le_trans (Nat.le_of_eq (size_of_step hp)) h.1, hretired⟩
  | part hd hq hw hi =>
    refine ⟨?_, h.2⟩
    have := h.1
    simp only [Pool.size, hw, List.length_append, List.length_cons] at this ⊢
    omega

theorem single_of_reachable (h : Reachable size s) {n : Nat} (hn1 : n ≤ 1)
    (hn : ∀ asked ∈ s.sizes, asked = n) : s.Single := by
  induction h with
  | refl =>
    refine ⟨?_, rfl⟩
    rw [start, ofSize, size_resize, hn size (by simp [start])]
    exact hn1
  | tail hmoves hmove ih =>
    exact single_move hmove (steady_of_reachable hmoves) hn
      (ih fun asked ha => hn asked (sizes_of_move hmove asked ha))

theorem length_atWork (hs : s.Steady) (h : s.Single) : s.atWork.length ≤ 1 := by
  obtain ⟨hsize, hretired⟩ := h
  have hbusy : (s.pool.workers.filterMap (·.task)).length ≤ s.pool.size :=
    List.length_filterMap_le _ _
  rw [atWork, hretired, List.append_nil, List.length_append]
  cases hj : s.duty.job? with
  | none =>
    simp only [Option.toList_none, List.length_nil]
    omega
  | some job =>
    simp [hs.alone (job?_alone hj)]

/-! ## The theorem -/

theorem reports_of_number {results : List (Nat × Except WorkFault α)} (number : Nat) :
    (results.flatMap Books.reportsOf).filter (·.1 == number)
      = (results.filter (·.1 == number)).flatMap Books.reportsOf := by
  induction results with
  | nil => rfl
  | cons result results ih =>
    obtain ⟨other, result⟩ := result
    rw [List.flatMap_cons, List.filter_append, ih, List.filter_cons]
    by_cases ho : other == number
    all_goals cases result <;> simp [Books.reportsOf, ho]

/-- Answers are to tasks, and tasks have answers. -/
theorem answers {jobs : List (Job α)} {results : List (Nat × Except WorkFault α)}
    (h : List.Forall₂ (fun job result => ∃ fate, result = Books.answer job fate) jobs results) :
    (∀ job ∈ jobs, ∃ fate, Books.answer job fate ∈ results) ∧
      ∀ result ∈ results, ∃ job ∈ jobs, result.1 = job.number := by
  induction h with
  | nil => simp
  | @cons job result jobs results he _ ih =>
    obtain ⟨fate, rfl⟩ := he
    refine ⟨fun other ho => ?_, fun other ho => ?_⟩
    · rcases List.mem_cons.1 ho with rfl | ho
      · exact ⟨fate, List.mem_cons_self ..⟩
      · obtain ⟨fate, hf⟩ := ih.1 other ho
        exact ⟨fate, List.mem_cons_of_mem _ hf⟩
    · rcases List.mem_cons.1 ho with rfl | ho
      · exact ⟨job, List.mem_cons_self .., rfl⟩
      · obtain ⟨other, ho, he⟩ := ih.2 other ho
        exact ⟨other, List.mem_cons_of_mem _ ho, he⟩

section

variable (h : s.books.Sound)
include h

theorem nodup_submitted : (s.submitted.map (·.number)).Nodup := by
  have hnumbered : s.submitted.map (·.number) = List.range s.submitted.length := h.numbered
  rw [hnumbered]
  exact List.nodup_range

theorem perm_holdings : s.submitted.Perm (s.holdings.map (·.2)) := by
  rw [map_holdings]
  exact h.kept

theorem nodup_holdings : (s.holdings.map (·.2.number)).Nodup := by
  have hperm := (perm_holdings h).map (·.number)
  rw [List.map_map] at hperm
  exact hperm.nodup_iff.1 (nodup_submitted h)

theorem nodup_started : (s.pool.started.map (·.1.number)).Nodup := by
  have horder : s.submitted = s.pool.started.map (·.1) ++ s.pool.queue := h.order
  have hnodup := nodup_submitted h
  rw [horder, List.map_append, List.map_map] at hnodup
  exact hnodup.of_append_left

theorem nodup_results : (s.results.map (·.1)).Nodup := by
  have hfinished : s.results.map (·.1) = s.pool.finished.map (·.number) := h.numbers
  have hstarted : (s.pool.started.map (·.1)).Perm (s.atWork ++ s.pool.finished) := h.started
  have hnodup := nodup_started h
  have hmap := hstarted.map (·.number)
  rw [List.map_map, List.map_append] at hmap
  rw [hfinished]
  exact (hmap.nodup_iff.1 hnodup).of_append_right

theorem exists_place {job : Job α} (hj : job ∈ s.submitted) :
    ∃ place, (place, job) ∈ s.holdings ∧
      s.holdings.filter (·.2.number == job.number) = [(place, job)] := by
  obtain ⟨⟨place, _⟩, hmem, rfl⟩ := List.mem_map.1 ((perm_holdings h).mem_iff.1 hj)
  exact ⟨place, hmem, filter_eq_singleton (·.2.number) (nodup_holdings h) hmem⟩

theorem finished_submitted {job : Job α} (hj : job ∈ s.pool.finished) : job ∈ s.submitted :=
  h.kept.mem_iff.2 (List.mem_append_right _ (List.mem_append_right _ hj))

theorem mem_finished_iff {job : Job α} (hj : job ∈ s.submitted) :
    job ∈ s.pool.finished ↔ ∃ fate, Books.answer job fate ∈ s.results := by
  obtain ⟨hanswered, hof⟩ := answers h.results
  refine ⟨hanswered job, fun ⟨fate, hf⟩ => ?_⟩
  obtain ⟨other, ho, he⟩ := hof _ hf
  rwa [List.inj_on_of_nodup_map (nodup_submitted h) hj (finished_submitted h ho) he]

theorem reports_eq (number : Nat) : s.reports.filter (·.1 == number)
    = (s.results.filter (·.1 == number)).flatMap Books.reportsOf := by
  have hreports : s.reports = s.results.flatMap Books.reportsOf := h.reports
  rw [hreports, reports_of_number]

theorem reported_once (number : Nat) :
    (s.reports.filter (·.1 == number)).length ≤ 1 ∧
      ((s.reports.filter (·.1 == number)).length = 1 ↔
        ∃ fault, (number, .error fault) ∈ s.results) := by
  rw [reports_eq h]
  by_cases hr : ∃ result, (number, result) ∈ s.results
  · obtain ⟨result, hr⟩ := hr
    have hone : s.results.filter (·.1 == number) = [(number, result)] :=
      filter_eq_singleton (·.1) (nodup_results h) hr
    have hsame : ∀ other, (number, other) ∈ s.results → other = result := by
      intro other ho
      have hmem : (number, other) ∈ s.results.filter (·.1 == number) := by simp [ho]
      simpa [hone] using hmem
    rw [hone, List.flatMap_singleton]
    cases result with
    | ok value =>
      refine ⟨Nat.zero_le _, fun hlen => absurd hlen Nat.zero_ne_one, fun ⟨fault, hf⟩ => ?_⟩
      cases hsame _ hf
    | error fault => exact ⟨Nat.le_refl _, ⟨fun _ => ⟨fault, hr⟩, fun _ => rfl⟩⟩
  · have hnone : s.results.filter (·.1 == number) = [] := by
      refine List.filter_eq_nil_iff.2 fun result hmem he => hr ⟨result.2, ?_⟩
      rw [← beq_iff_eq.1 he]
      exact hmem
    rw [hnone]
    exact ⟨Nat.zero_le _, fun hlen => absurd hlen Nat.zero_ne_one,
      fun ⟨fault, hf⟩ => absurd ⟨_, hf⟩ hr⟩

theorem report_of {report : Nat × Occurrence} (hr : report ∈ s.reports) : ∃ fault,
    (report.1, .error fault) ∈ s.results ∧ report.2 = .reported (.workFailed fault) {} := by
  have hreports : s.reports = s.results.flatMap Books.reportsOf := h.reports
  rw [hreports] at hr
  obtain ⟨⟨number, result⟩, hmem, hr⟩ := List.mem_flatMap.1 hr
  cases result with
  | ok value => cases hr
  | error fault =>
    obtain rfl := List.mem_singleton.1 hr
    exact ⟨fault, hmem, rfl⟩

end

/-- A pool whose workers have all ended holds completed tasks only. -/
theorem Steady.holdings_eq (hs : s.Steady) (hd : s.duty = .closed) :
    s.holdings = s.pool.finished.map (.completed, ·) := by
  obtain ⟨hw, hr⟩ := hs.ended hd
  have hq : s.pool.queue = [] := (hs.queue hw).resolve_left fun ⟨job, hj⟩ => by simp [hd] at hj
  simp [holdings, begun, hw, hr, hq, hd, Duty.job?]

/-- **The operations of a pool are refined by the moves.** Whatever is done with a pool one after
another, and whatever is held up meanwhile, there are moves that come to the same pool and have
submitted the same tasks; and so there are when it is closed then. -/
theorem refines_moves (size : Nat) (ops : List (Operation α)) :
    ∃ s t : State α, Reachable size s ∧ s.duty = .idle ∧
      (s.pool, s.submitted) = ops.foldl Operation.apply (ofSize size, []) ∧
      Moves s t ∧ t.duty = .closed ∧ t.pool = s.pool.close ∧ t.submitted = s.submitted := by
  obtain ⟨s, hmoves, hd, hsession⟩ := moves_operations ops (steady_start size) rfl
  have hsteady : s.Steady := steady_of_reachable hmoves
  have hclosing := Move.close hd
  obtain ⟨t, hclose, hpool, hduty, hsubmitted, -⟩ :=
    moves_close (steady_move hclosing hsteady) rfl ⟨.ok (), .ok ()⟩
  exact ⟨s, t, hmoves, hd, hsession, .head hclosing hclose, hduty, hpool, hsubmitted⟩

/-- **Tasks are conserved**, in every state that a pool and its owner can get to. -/
theorem conserved_of_reachable (h : Reachable size s) : s.Conserved where
  placed job hj := by
    obtain ⟨place, -, hplace⟩ := exists_place (sound_of_reachable h) hj
    exact ⟨place, hplace⟩
  submitted held hh :=
    (perm_holdings (sound_of_reachable h)).mem_iff.2 (List.mem_map_of_mem hh)
  startedOnce := nodup_started (sound_of_reachable h)
  started job _ := by
    have hstarted : (s.pool.started.map (·.1)).Perm (s.atWork ++ s.pool.finished) :=
      (sound_of_reachable h).started
    rw [mem_holdings_begun, hstarted.mem_iff]
  answeredOnce := nodup_results (sound_of_reachable h)
  answered job hj := by
    rw [mem_holdings_completed]
    exact mem_finished_iff (sound_of_reachable h) hj
  reported := reported_once (sound_of_reachable h)
  reports report hr := report_of (sound_of_reachable h) hr
  emptied hd hlast := by
    have hs := steady_of_reachable h
    have hsize : s.pool.size = 0 := by
      rcases hs.asked with hc | hc | hasked
      · simp [hd] at hc
      · simp [hd] at hc
      · simpa [hasked] using hlast
    exact hs.queue_eq hd (workers_eq_nil_iff.2 hsize)
  operations hd ops := moves_operations ops (steady_of_reachable h) hd
  ends hd := by
    obtain ⟨t, hmoves, hpool, hduty, hsubmitted, -⟩ :=
      moves_close (steady_of_reachable h) hd ⟨.ok (), .ok ()⟩
    exact ⟨t, hmoves, hduty, hpool, hsubmitted⟩
  ended hd job hj := by
    have hsound := sound_of_reachable h
    obtain ⟨place, hmem, hplace⟩ := exists_place hsound hj
    have hcompleted : place = .completed ∧ job ∈ s.pool.finished := by
      rw [(steady_of_reachable h).holdings_eq hd] at hmem
      simpa [and_comm, eq_comm] using hmem
    obtain ⟨rfl, hfinished⟩ := hcompleted
    obtain ⟨fate, hf⟩ := (mem_finished_iff hsound hj).1 hfinished
    exact ⟨hplace, _, filter_eq_singleton (·.1) (nodup_results hsound) hf⟩
  serial n hn1 hn := by
    have horder : s.submitted = s.pool.started.map (·.1) ++ s.pool.queue :=
      (sound_of_reachable h).order
    exact ⟨horder ▸ List.prefix_append _ _,
      length_atWork (steady_of_reachable h) (single_of_reachable h hn1 hn)⟩

/-- A task that fails, in a pool of two workers that is made smaller and then dropped. -/
theorem conserved_after_failure : ∃ s : State Nat, s.Conserved ∧ s.duty = .closed ∧
    s.submitted.length = 1 ∧ s.pool.finished.length = 1 := by
  obtain ⟨s, t, hs, -, hsession, hclose, ht, htpool, htsubmitted⟩ := refines_moves 2
    [.submit ({ result := .error (.failure "bad") } : Work Nat), .resize 1]
  have hspool : s.pool = _ := congrArg Prod.fst hsession
  have hssubmitted : s.submitted = _ := congrArg Prod.snd hsession
  refine ⟨t, conserved_of_reachable (hs.trans hclose), ht, ?_, ?_⟩
  · rw [htsubmitted, hssubmitted]
    rfl
  · rw [htpool, hspool]
    rfl

end State

end Pool

end EventScripts
