import EventScripts.Proofs.Pool.Moves
/-!
# The books of a pool

A task goes from the queue to whoever works on it, and from there to the
finished ones; its result and its reports are written down as it ends. `Entry`
says what a move does to these lists, and nothing else about the pool: which
worker has which task does not matter. `sound_entry` is what all entries keep.
-/

namespace EventScripts

namespace Pool

variable {α : Type}

/-- The lists that tell where every task is, and what came of it. -/
structure Books (α : Type) where
  submitted : List (Job α)
  queue : List (Job α)
  atWork : List (Job α)
  started : List (Job α)
  finished : List (Job α)
  results : List (Nat × Except WorkFault α)
  reports : List (Nat × Occurrence)

namespace Books

variable {b c : Books α}

/-- The task that is submitted next. -/
def next (b : Books α) (work : Work α) : Job α := ⟨b.submitted.length, work⟩

/-- The result of a task that has met a fate. -/
def answer (job : Job α) (fate : Fate) : Nat × Except WorkFault α :=
  (job.number, (fate.verdict job.work).mapError .work)

/-- What is reported of a result. -/
def reportsOf (result : Nat × Except WorkFault α) : List (Nat × Occurrence) :=
  match result.2 with
  | .ok _ => []
  | .error fault => [(result.1, .reported (.workFailed fault) {})]

/-- What a move does to the books, but for the order of the tasks that are at work. -/
inductive Entry (b : Books α) : Books α → Prop where
  | submitted (work : Work α) :
      Entry b { b with
        submitted := b.submitted ++ [b.next work], queue := b.queue ++ [b.next work] }
  | begun (work : Work α) (atWork : List (Job α)) (hq : b.queue = [])
      (hw : atWork.Perm (b.next work :: b.atWork)) :
      Entry b { b with
        submitted := b.submitted ++ [b.next work], atWork, started := b.started ++ [b.next work] }
  | taken (job : Job α) (queue atWork : List (Job α)) (hq : b.queue = job :: queue)
      (hw : atWork.Perm (job :: b.atWork)) :
      Entry b { b with queue, atWork, started := b.started ++ [job] }
  | ended (job : Job α) (atWork : List (Job α)) (fate : Fate)
      (hw : b.atWork.Perm (job :: atWork)) :
      Entry b { b with
        atWork
        finished := b.finished ++ [job]
        results := b.results ++ [answer job fate]
        reports := b.reports ++ reportsOf (answer job fate) }
  | none (atWork : List (Job α)) (hw : atWork.Perm b.atWork) : Entry b { b with atWork }

theorem Entry.of_eq {d : Books α} (h : Entry b c) (he : d = c) : Entry b d := he ▸ h

/-- Tasks start in the order in which they were submitted, and those that have not started are in
the queue; what has started is at work or finished; what is finished has its result, and every
fault was reported. -/
structure Sound (b : Books α) : Prop where
  numbered : b.submitted.map (·.number) = List.range b.submitted.length
  order : b.submitted = b.started ++ b.queue
  started : b.started.Perm (b.atWork ++ b.finished)
  results : List.Forall₂ (fun job result => ∃ fate, result = answer job fate) b.finished b.results
  reports : b.reports = b.results.flatMap reportsOf

theorem sound_entry (he : Entry b c) (h : b.Sound) : c.Sound := by
  have hnumbered : ∀ work, (b.submitted ++ [b.next work]).map (·.number)
      = List.range (b.submitted ++ [b.next work]).length := by
    intro work
    simp [h.numbered, next, List.range_succ]
  have hbegun : ∀ {job : Job α} {atWork : List (Job α)}, atWork.Perm (job :: b.atWork) →
      (b.started ++ [job]).Perm (atWork ++ b.finished) := fun hw =>
    (List.perm_append_singleton _ _).trans ((h.started.cons _).trans (hw.symm.append_right _))
  cases he with
  | submitted work =>
    exact ⟨hnumbered work, by simp [h.order], h.started, h.results, h.reports⟩
  | begun work atWork hq hw =>
    refine ⟨hnumbered work, ?_, hbegun hw, h.results, h.reports⟩
    simp only [h.order, hq, List.append_nil]
  | taken job queue atWork hq hw =>
    refine ⟨h.numbered, ?_, hbegun hw, h.results, h.reports⟩
    simp only [h.order, hq, List.append_assoc, List.singleton_append]
  | ended job atWork fate hw =>
    refine ⟨h.numbered, h.order, ?_, List.rel_append h.results (.cons ⟨fate, rfl⟩ .nil), ?_⟩
    · calc b.started.Perm (b.atWork ++ b.finished) := h.started
        List.Perm _ (job :: atWork ++ b.finished) := hw.append_right _
        List.Perm _ (atWork ++ job :: b.finished) := List.perm_middle.symm
        List.Perm _ (atWork ++ (b.finished ++ [job])) :=
          (List.perm_append_singleton job b.finished).symm.append_left _
    · simp only [List.flatMap_append, h.reports, List.flatMap_singleton]
  | none atWork hw =>
    exact ⟨h.numbered, h.order, h.started.trans (hw.symm.append_right _), h.results, h.reports⟩

/-- Every submitted task is in the queue, at work or finished. -/
theorem Sound.kept (h : b.Sound) : b.submitted.Perm (b.queue ++ (b.atWork ++ b.finished)) := by
  rw [h.order]
  exact (h.started.append_right _).trans List.perm_append_comm

theorem Sound.numbers (h : b.Sound) : b.results.map (·.1) = b.finished.map (·.number) := by
  have hanswer : ∀ {jobs : List (Job α)} {results : List (Nat × Except WorkFault α)},
      List.Forall₂ (fun job result => ∃ fate, result = answer job fate) jobs results →
      results.map (·.1) = jobs.map (·.number) := by
    intro jobs results h
    induction h with
    | nil => rfl
    | cons he _ ih =>
      obtain ⟨fate, rfl⟩ := he
      rw [List.map_cons, List.map_cons, ih]
      rfl
  exact hanswer h.results

end Books

namespace State

variable {s t : State α}

/-- The books in a state; who works on a task is left out. -/
def books (s : State α) : Books α :=
  ⟨s.submitted, s.pool.queue, s.atWork, s.pool.started.map (·.1), s.pool.finished, s.results,
    s.reports⟩

theorem atWork_eq (s : State α) : s.atWork = s.pool.busy ++ s.duty.job?.toList := rfl

/-- The end of a task in the books. -/
theorem books_complete (s : State α) (job : Job α) (fate : Fate) :
    (s.complete job fate).books = { s.books with
      results := s.results ++ [Books.answer job fate]
      reports := s.reports ++ Books.reportsOf (Books.answer job fate) } := by
  have hreports : (Task.finish {} (fate.verdict job.work)).2.map (job.number, ·)
      = Books.reportsOf (Books.answer job fate) := by
    unfold Books.answer
    cases fate.verdict job.work <;> rfl
  simp only [complete, books, Task.result_done, hreports]
  rfl

/-- Every move makes an entry in the books. -/
theorem entry_of_move (hm : Move s t) (hs : s.Steady) : s.books.Entry t.books := by
  cases hm with
  | submit work hd ha =>
    refine (Books.Entry.submitted work).of_eq ?_
    simp [books, Pool.submit, ha, atWork, next, Books.next]
  | submitHere work hd ha =>
    have hw : (s.pool.busy ++ [s.next work]).Perm (s.next work :: s.atWork) := by
      simp [atWork_eq, hd, Duty.job?]
    refine (Books.Entry.begun work _ (hs.queue_eq hd (workers_eq_nil ha)) hw).of_eq ?_
    simp [books, atWork_eq, startHere, next, Books.next, Duty.job?, busy]
  | @endHere job hd fate =>
    have hw : s.atWork.Perm (job :: s.pool.busy) := by
      simp [atWork_eq, hd]
    have hrest : s.duty.rest.job? = none := by
      cases hduty : s.duty <;> simp_all [Duty.rest, Duty.job?]
    refine (Books.Entry.ended job _ fate hw).of_eq ((books_complete ..).trans ?_)
    simp [books, atWork_eq, hrest, busy]
  | resize size hd hsz =>
    rcases resize_cases hsz with hr | hr
    · refine (Books.Entry.none (s.pool.shrink size).busy ?_).of_eq ?_
      · simpa [books, atWork_eq, hd, Duty.job?] using busy_shrink s.pool size
      · simp [books, atWork_eq, hr, hd, Duty.job?, shrink]
    · refine (Books.Entry.none s.pool.busy ?_).of_eq ?_
      · simp [books, atWork_eq, hd, Duty.job?]
      · simp [books, atWork_eq, hr, hd, Duty.job?, busy_grow]
        simp [grow]
  | empty hd hsz =>
    refine (Books.Entry.none (s.pool.shrink 0).busy ?_).of_eq ?_
    · simpa [books, atWork_eq, hd, Duty.job?] using busy_shrink s.pool 0
    · simp [books, atWork_eq, Duty.job?, shrink]
  | @drain job queue hd hq =>
    have hw : (s.pool.busy ++ [job]).Perm (job :: s.atWork) := by
      simp [atWork_eq, hd, Duty.job?]
    refine (Books.Entry.taken job queue _ hq hw).of_eq ?_
    simp [books, atWork_eq, startHere, Duty.job?, busy]
  | drained hd hq =>
    refine (Books.Entry.none s.atWork (.refl _)).of_eq ?_
    simp [books, atWork_eq, hd, Duty.job?]
  | @work pool hp hf =>
    rcases outcome_of_step hp hs.distinct with
      ⟨job, id, hq, hb, hst, -⟩ | ⟨job, -, -, -, hf'⟩ | ⟨hq, hb, hst, -⟩
    · refine (Books.Entry.taken job pool.queue (pool.busy ++ s.duty.job?.toList) hq
        (hb.append_right _)).of_eq ?_
      simp [books, atWork_eq, hst, hf]
    · simp [hf] at hf'
    · refine (Books.Entry.none (pool.busy ++ s.duty.job?.toList) (.of_eq ?_)).of_eq ?_
      · rw [hb]
        rfl
      · simp [books, atWork_eq, hq, hst, hf]
  | @finish pool job hp hf fate =>
    rcases outcome_of_step hp hs.distinct with
      ⟨-, -, -, -, -, hf'⟩ | ⟨job', hq, hb, hst, hf'⟩ | ⟨-, -, -, hf'⟩
    · simp [hf] at hf'
    · obtain rfl : job = job' := by simpa [hf] using hf'
      refine (Books.Entry.ended job (pool.busy ++ s.duty.job?.toList) fate
        (hb.append_right _)).of_eq ((books_complete ..).trans ?_)
      simp [books, atWork_eq, hq, hst, hf]
    · simp [hf] at hf'
  | close hd =>
    refine (Books.Entry.none s.atWork (.refl _)).of_eq ?_
    simp [books, atWork_eq, hd, Duty.job?]
  | @part front back worker hd hq hw hi =>
    refine (Books.Entry.none s.atWork (.refl _)).of_eq ?_
    simp [books, atWork_eq, busy, hw, hi]
  | closed hd hw hr =>
    refine (Books.Entry.none s.atWork (.refl _)).of_eq ?_
    simp [books, atWork_eq, hd, Duty.job?]

end State

end Pool

end EventScripts
