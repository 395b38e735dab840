import EventScripts.Proofs.Pool.Fates
import EventScripts.Proofs.Pool.Workers
import Mathlib.Logic.Relation
/-!
# A pool and its owner, one move at a time

The workers of a pool get on while its owner does something else, and also while
the owner is inside an operation: running a task that it has just submitted,
emptying the queue after a resize to nothing, or waiting for the workers to end
when the pool is dropped. `Move` takes one of them one step further; nothing is
assumed about who comes next. Every worker that is started exists.

`Steady` is what the moves keep of the bookkeeping. The point of it is that a
pool without workers has nothing in its queue, unless its owner is about to empty
it: nothing that was handed to workers is left behind when they go.
-/

namespace EventScripts

namespace Pool

/-- A submitted task: its number and its work. -/
structure Job (α : Type) where
  number : Nat
  work : Work α

/-- What the owner of a pool is at. -/
inductive Duty (α : Type) where
  | idle
  | running (job : Job α)
  | draining (job : Option (Job α))
  | closing
  | closed

/-- A pool with its owner. `submitted` holds all tasks that ever were, `sizes` all sizes that were
asked for; a handle is the number of its task. -/
structure State (α : Type) where
  pool : Pool (Job α)
  duty : Duty α := .idle
  submitted : List (Job α) := []
  sizes : List Nat
  results : List (Nat × Except WorkFault α) := []
  reports : List (Nat × Occurrence) := []

variable {α : Type}

namespace Duty

/-- The task that the owner runs itself. -/
def job? : Duty α → Option (Job α)
  | running job => some job
  | draining job => job
  | idle | closing | closed => none

/-- What the owner is at once the task that it runs has ended. -/
def rest : Duty α → Duty α
  | running _ => idle
  | draining _ => draining none
  | duty => duty

/-- Whether the owner is inside an operation that only a pool without workers has. -/
def Alone : Duty α → Prop
  | running _ | draining _ => True
  | idle | closing | closed => False

end Duty

namespace State

/-- A new pool. -/
def start (size : Nat) : State α := { pool := .ofSize size, sizes := [size] }

/-- The task that is submitted next. -/
def next (s : State α) (work : Work α) : Job α := ⟨s.submitted.length, work⟩

/-- The tasks that have started and not finished. -/
def atWork (s : State α) : List (Job α) :=
  (s.pool.workers ++ s.pool.retired).filterMap (·.task) ++ s.duty.job?.toList

/-- The owner starts a task. -/
def startHere (s : State α) (job : Job α) (duty : Duty α) : State α :=
  { s with pool := { s.pool with started := s.pool.started ++ [(job, .caller)] }, duty }

/-- A task has met its fate: a fault is reported, and the handle gets the result. -/
def complete (s : State α) (job : Job α) (fate : Fate) : State α :=
  let ended := Task.finish {} (fate.verdict job.work)
  { s with
    results := s.results ++ [(job.number, Task.result ⟨job.work, ended.1⟩)]
    reports := s.reports ++ ended.2.map (job.number, ·) }

/-- One step of a worker or of the owner. -/
inductive Move : State α → State α → Prop where
  /-- A task is handed to the workers. -/
  | submit {s : State α} (work : Work α) (hd : s.duty = .idle) (ha : s.pool.isAsync) :
      Move s { s with
        pool := s.pool.submit (s.next work), submitted := s.submitted ++ [s.next work] }
  /-- A task is submitted to a pool without workers, and the owner starts it. -/
  | submitHere {s : State α} (work : Work α) (hd : s.duty = .idle) (ha : ¬ s.pool.isAsync) :
      Move s { s.startHere (s.next work) (.running (s.next work)) with
        submitted := s.submitted ++ [s.next work] }
  /-- The owner ends the task that it runs. -/
  | endHere {s : State α} {job : Job α} (hd : s.duty.job? = some job) (fate : Fate) :
      Move s ({ s with
        pool := { s.pool with finished := s.pool.finished ++ [job] }
        duty := s.duty.rest }.complete job fate)
  /-- The size is changed, or it was that size already. -/
  | resize {s : State α} (size : Nat) (hd : s.duty = .idle) (hs : size = 0 → s.pool.size = 0) :
      Move s { s with pool := s.pool.resize size, sizes := s.sizes ++ [size] }
  /-- The last workers are asked to stop; the owner is about to empty the queue. -/
  | empty {s : State α} (hd : s.duty = .idle) (hs : 0 < s.pool.size) :
      Move s { s with
        pool := s.pool.shrink 0, duty := .draining none, sizes := s.sizes ++ [0] }
  /-- The owner takes the first task in the queue. -/
  | drain {s : State α} {job : Job α} {queue : List (Job α)} (hd : s.duty = .draining none)
      (hq : s.pool.queue = job :: queue) :
      Move s ({ s with pool := { s.pool with queue } }.startHere job (.draining (some job)))
  /-- The owner finds the queue empty: the resize to nothing returns. -/
  | drained {s : State α} (hd : s.duty = .draining none) (hq : s.pool.queue = []) :
      Move s { s with duty := .idle }
  /-- A worker takes a task, or one that was asked to stop leaves. -/
  | work {s : State α} {pool : Pool (Job α)} (hs : Pool.Step s.pool pool)
      (hf : pool.finished = s.pool.finished) : Move s { s with pool }
  /-- A worker finishes its task. -/
  | finish {s : State α} {pool : Pool (Job α)} {job : Job α} (hs : Pool.Step s.pool pool)
      (hf : pool.finished = s.pool.finished ++ [job]) (fate : Fate) :
      Move s ({ s with pool }.complete job fate)
  /-- The pool is dropped. -/
  | close {s : State α} (hd : s.duty = .idle) : Move s { s with duty := .closing }
  /-- A worker without a task finds the queue empty and the pool dropped. -/
  | part {s : State α} {front back : List (Worker (Job α))} {worker : Worker (Job α)}
      (hd : s.duty = .closing) (hq : s.pool.queue = [])
      (hw : s.pool.workers = front ++ worker :: back) (hi : worker.task = none) :
      Move s { s with pool := { s.pool with workers := front ++ back } }
  /-- The owner has seen all workers end. -/
  | closed {s : State α} (hd : s.duty = .closing) (hw : s.pool.workers = [])
      (hr : s.pool.retired = []) : Move s { s with duty := .closed }

/-- Any number of moves, in any order. -/
abbrev Moves : State α → State α → Prop := Relation.ReflTransGen Move

/-- The states of a pool that was made with a size. -/
def Reachable (size : Nat) (s : State α) : Prop := Moves (start size) s

variable {s t : State α}

/-! ## Every move keeps a pool steady -/

/-- Where a pool has no workers, it has nothing in its queue unless its owner is emptying it. -/
structure Steady (s : State α) : Prop where
  distinct : s.pool.Distinct
  alone : s.duty.Alone → s.pool.workers = []
  queue : s.pool.workers = [] → (∃ job, s.duty = .draining job) ∨ s.pool.queue = []
  asked : s.duty = .closing ∨ s.duty = .closed ∨ s.sizes.getLast? = some s.pool.size
  ended : s.duty = .closed → s.pool.workers = [] ∧ s.pool.retired = []

theorem Steady.queue_eq (h : s.Steady) (hd : s.duty = .idle) (hw : s.pool.workers = []) :
    s.pool.queue = [] := by
  rcases h.queue hw with ⟨job, hj⟩ | hq
  · rw [hd] at hj
    cases hj
  · exact hq

theorem workers_eq_nil (ha : ¬ s.pool.isAsync) : s.pool.workers = [] := by
  simpa [isAsync] using ha

theorem alone_of_draining {duty : Duty α} {job : Option (Job α)} (h : duty = .draining job) :
    duty.Alone := by
  rw [h]
  trivial

theorem job?_alone {duty : Duty α} {job : Job α} (h : duty.job? = some job) : duty.Alone := by
  cases duty <;> simp_all [Duty.job?, Duty.Alone]

theorem rest_cases {duty : Duty α} (h : duty.Alone) :
    duty.rest = .idle ∧ (∃ job, duty = .running job) ∨
      duty.rest = .draining none ∧ ∃ job, duty = .draining job := by
  cases duty with
  | running job => exact .inl ⟨rfl, job, rfl⟩
  | draining job => exact .inr ⟨rfl, job, rfl⟩
  | idle | closing | closed => cases h

theorem steady_start (size : Nat) : (start size : State α).Steady where
  distinct := distinct_ofSize size
  alone h := h.elim
  queue _ := .inr rfl
  asked := .inr (.inr (by simp [start, ofSize, size_resize]))
  ended h := by cases h

theorem distinct_move (hm : Move s t) (h : s.pool.Distinct) : t.pool.Distinct := by
  cases hm with
  | submit work hd ha =>
    simp only [Pool.submit, ha, if_true]
    exact ⟨h.ids, h.fresh⟩
  | submitHere | endHere | drain | drained | close | closed => exact ⟨h.ids, h.fresh⟩
  | resize size => exact distinct_resize size h
  | empty => exact distinct_shrink 0 h
  | work hp | finish hp => exact distinct_step hp h
  | part hd hq hw hi =>
    refine h.of_sublist ?_ rfl
    rw [hw]
    exact (((List.sublist_cons_self _ _).append_left _).append_right _).map _

theorem steady_move (hm : Move s t) (h : s.Steady) : t.Steady := by
  have hdistinct := distinct_move hm h.distinct
  have hsize : s.duty ≠ .closing → s.duty ≠ .closed → s.sizes.getLast? = some s.pool.size :=
    fun h1 h2 => (h.asked.resolve_left h1).resolve_left h2
  cases hm with
  | submit work hd ha =>
    have hw : s.pool.workers ≠ [] := by simpa [isAsync] using ha
    refine ⟨hdistinct, fun hal => absurd hal (by simp [hd, Duty.Alone]), ?_, ?_, ?_⟩
    · simp [Pool.submit, ha, hw]
    · simpa [Pool.submit, ha, Pool.size] using h.asked
    · simp [hd]
  | submitHere work hd ha =>
    have hw := workers_eq_nil ha
    exact ⟨hdistinct, fun _ => hw, fun _ => .inr (h.queue_eq hd hw),
      .inr (.inr (hsize (by simp [hd]) (by simp [hd]))), fun hc => by cases hc⟩
  | @endHere job hd fate =>
    have hal := job?_alone hd
    have hw := h.alone hal
    rcases rest_cases hal with ⟨hrest, job, hj⟩ | ⟨hrest, job, hj⟩
    · refine ⟨hdistinct, fun _ => hw, fun _ => .inr ?_, .inr (.inr (hsize ?_ ?_)), ?_⟩
      · rcases h.queue hw with ⟨job, hj'⟩ | hq
        · simp [hj] at hj'
        · exact hq
      · simp [hj]
      · simp [hj]
      · simp [complete, hrest]
    · refine ⟨hdistinct, fun _ => hw, fun _ => .inl ⟨none, hrest⟩, .inr (.inr (hsize ?_ ?_)), ?_⟩
      · simp [hj]
      · simp [hj]
      · simp [complete, hrest]
  | resize size hd hsz =>
    refine ⟨hdistinct, fun hal => absurd hal (by simp [hd, Duty.Alone]), fun hw => .inr ?_,
      .inr (.inr (by simp [size_resize])), fun hc => by simp [hd] at hc⟩
    have hzero : size = 0 := by
      rw [← size_resize s.pool size]
      exact List.length_eq_zero_iff.2 hw
    have hq := h.queue_eq hd (List.length_eq_zero_iff.1 (hsz hzero))
    rcases resize_cases hsz with hr | hr
    · rw [hr]
      exact hq
    · rw [hr]
      exact hq
  | empty hd hsz =>
    refine ⟨hdistinct, fun _ => rfl, fun _ => .inl ⟨none, rfl⟩, .inr (.inr ?_), fun hc => by cases hc⟩
    simp [length_shrink]
  | drain hd hq =>
    exact ⟨hdistinct, fun _ => h.alone (alone_of_draining hd), fun _ => .inl ⟨_, rfl⟩,
      .inr (.inr (hsize (by simp [hd]) (by simp [hd]))), fun hc => by cases hc⟩
  | drained hd hq =>
    exact ⟨hdistinct, fun hal => hal.elim, fun _ => .inr hq,
      .inr (.inr (hsize (by simp [hd]) (by simp [hd]))), fun hc => by cases hc⟩
  | work hp | finish hp =>
    have hlen := size_of_step hp
    have hnil := workers_eq_nil_iff.trans (hlen.symm ▸ workers_eq_nil_iff.symm)
    refine ⟨hdistinct, fun hal => hnil.2 (h.alone hal),
      fun hw => (h.queue (hnil.1 hw)).imp id (outcome_of_step hp h.distinct).queue_eq, ?_,
      fun hc => (not_step hp (h.ended hc).1 (h.ended hc).2).elim⟩
    exact h.asked.imp id (Or.imp id fun ha => ha.trans (congrArg some hlen.symm))
  | close hd =>
    exact ⟨hdistinct, fun hal => hal.elim, fun hw => .inr (h.queue_eq hd hw), .inl rfl,
      fun hc => by cases hc⟩
  | part hd hq hw hi =>
    exact ⟨hdistinct, fun hal => absurd hal (by simp [hd, Duty.Alone]), fun _ => .inr hq,
      .inl hd, fun hc => by simp [hd] at hc⟩
  | closed hd hw hr =>
    have hq : s.pool.queue = [] := (h.queue hw).resolve_left (by
      rintro ⟨job, hj⟩
      simp [hd] at hj)
    exact ⟨hdistinct, fun hal => hal.elim, fun _ => .inr hq, .inr (.inl rfl), fun _ => ⟨hw, hr⟩⟩

theorem steady_moves (hm : Moves s t) (h : s.Steady) : t.Steady := by
  induction hm with
  | refl => exact h
  | tail _ hmove ih => exact steady_move hmove ih

theorem steady_of_reachable {size : Nat} (h : Reachable size s) : s.Steady :=
  steady_moves h (steady_start size)

end State

end Pool

end EventScripts
