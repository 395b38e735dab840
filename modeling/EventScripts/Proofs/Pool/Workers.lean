import EventScripts.Pool.Basic
import Mathlib.Data.List.Nodup
import Mathlib.Data.List.Perm.Basic
/-!
# Steps of workers and changes of size

What one step of one worker does to the tasks of a pool (`Outcome`), and what a
change of size does. Workers have numbers of their own, which is why a task is
given to one worker only.
-/

namespace EventScripts

namespace Pool

variable {τ : Type}

/-! ## What a step of a worker does -/

/-- The tasks that workers are at. -/
def busy (pool : Pool τ) : List τ := (pool.workers ++ pool.retired).filterMap (·.task)

/-- Workers have numbers of their own. -/
structure Distinct (pool : Pool τ) : Prop where
  ids : ((pool.workers ++ pool.retired).map (·.id)).Nodup
  fresh : ∀ worker ∈ pool.workers ++ pool.retired, worker.id < pool.nextWorker

theorem give_other {workers : List (Worker τ)} {id : Nat} (task : Option τ)
    (h : id ∉ workers.map (·.id)) : workers.map (Worker.give id task) = workers := by
  refine (List.map_congr_left fun worker hw => if_neg fun he => h ?_).trans (List.map_id _)
  rw [← he]
  exact List.mem_map_of_mem hw

/-- A task is given to one worker only, where that worker's number is its own. -/
theorem map_give {front back : List (Worker τ)} {worker : Worker τ} (task : Option τ)
    (h : worker.id ∉ (front ++ back).map (·.id)) :
    (front ++ worker :: back).map (Worker.give worker.id task)
      = front ++ { worker with task } :: back := by
  rw [List.map_append, List.mem_append, not_or] at h
  rw [List.map_append, List.map_cons, give_other task h.1, give_other task h.2, Worker.give,
    if_pos rfl]

theorem id_other {front back : List (Worker τ)} {worker : Worker τ}
    (hn : ((front ++ worker :: back).map (·.id)).Nodup) :
    worker.id ∉ (front ++ back).map (·.id) := by
  rw [List.map_append, List.map_cons, List.nodup_middle, List.nodup_cons, ← List.map_append] at hn
  exact hn.1

/-- What becomes of the workers when one of them is given a task, or none. -/
theorem Distinct.give {pool : Pool τ} (hd : pool.Distinct) {worker : Worker τ}
    (hw : worker ∈ pool.workers ++ pool.retired) (task : Option τ) :
    ∃ front back, pool.workers ++ pool.retired = front ++ worker :: back ∧
      pool.workers.map (Worker.give worker.id task) ++ pool.retired.map (Worker.give worker.id task)
        = front ++ { worker with task } :: back := by
  obtain ⟨front, back, hsplit⟩ := List.append_of_mem hw
  have hids := hd.ids
  rw [hsplit] at hids
  exact ⟨front, back, hsplit, by rw [← List.map_append, hsplit, map_give task (id_other hids)]⟩

/-- A worker takes the first task in the queue, or finishes its task, or leaves. -/
inductive Outcome (before after : Pool τ) : Prop where
  | took (task : τ) (id : Nat) (hq : before.queue = task :: after.queue)
      (hb : after.busy.Perm (task :: before.busy))
      (hs : after.started = before.started ++ [(task, .worker id)])
      (hf : after.finished = before.finished)
  | finished (task : τ) (hq : after.queue = before.queue)
      (hb : before.busy.Perm (task :: after.busy)) (hs : after.started = before.started)
      (hf : after.finished = before.finished ++ [task])
  | left (hq : after.queue = before.queue) (hb : after.busy = before.busy)
      (hs : after.started = before.started) (hf : after.finished = before.finished)

theorem outcome_of_step {before after : Pool τ} (h : Step before after)
    (hd : before.Distinct) : Outcome before after := by
  cases h with
  | @take task rest worker hq hw hi =>
    obtain ⟨front, back, hsplit, hgive⟩ := hd.give hw (some task)
    refine .took task worker.id hq ?_ rfl rfl
    rw [busy, busy, hgive, hsplit]
    simp only [List.filterMap_append, List.filterMap_cons, hi]
    exact List.perm_middle
  | @finish task worker hw ht =>
    obtain ⟨front, back, hsplit, hgive⟩ := hd.give hw none
    refine .finished task rfl ?_ rfl rfl
    rw [busy, busy, hgive, hsplit]
    simp only [List.filterMap_append, List.filterMap_cons, ht]
    exact List.perm_middle
  | @leave front back worker hr hi =>
    refine .left rfl ?_ rfl rfl
    simp [busy, hr, hi]

theorem workers_of_step {before after : Pool τ} (h : Step before after) :
    after.workers.map (·.id) = before.workers.map (·.id) ∧
      (after.retired.map (·.id)).Sublist (before.retired.map (·.id)) ∧
      after.nextWorker = before.nextWorker := by
  have hgive : ∀ (id : Nat) (task : Option τ) (workers : List (Worker τ)),
      (workers.map (Worker.give id task)).map (·.id) = workers.map (·.id) := by
    intro id task workers
    rw [List.map_map]
    refine List.map_congr_left fun worker _ => ?_
    rw [Function.comp_apply, Worker.give]
    split <;> rfl
  cases h with
  | take | finish => exact ⟨hgive _ _ _, by rw [hgive], rfl⟩
  | @leave front back worker hr hi =>
    refine ⟨rfl, ?_, rfl⟩
    rw [hr]
    exact (List.Sublist.append_left (List.sublist_cons_self _ _) _).map _

/-- Where there is neither a worker nor a task in the queue, none comes by a worker's step. -/
theorem Outcome.queue_eq {before after : Pool τ} (h : Outcome before after)
    (hq : before.queue = []) : after.queue = [] := by
  cases h with
  | took task id hq' => simp [hq] at hq'
  | finished task hq' => rw [hq', hq]
  | left hq' => rw [hq', hq]

theorem size_of_step {before after : Pool τ} (h : Step before after) :
    after.size = before.size := by
  simpa [Pool.size] using congrArg List.length (workers_of_step h).1

theorem workers_eq_nil_iff {pool : Pool τ} : pool.workers = [] ↔ pool.size = 0 :=
  List.length_eq_zero_iff.symm

/-- Workers whose owner has seen them end take no step. -/
theorem not_step {before after : Pool τ} (h : Step before after)
    (hw : before.workers = []) (hr : before.retired = []) : False := by
  cases h with
  | take hq hmem | finish hmem => simp [hw, hr] at hmem
  | leave hr' => simp [hr] at hr'

/-! ## Workers have numbers of their own -/

/-- No worker has come but of those there were. -/
theorem Distinct.of_sublist {before after : Pool τ} (h : before.Distinct)
    (hs : ((after.workers ++ after.retired).map (·.id)).Sublist
      ((before.workers ++ before.retired).map (·.id)))
    (hn : after.nextWorker = before.nextWorker) : after.Distinct where
  ids := h.ids.sublist hs
  fresh worker hw := by
    obtain ⟨other, ho, hid⟩ := List.mem_map.1 (hs.subset (List.mem_map_of_mem hw))
    rw [hn, ← hid]
    exact h.fresh other ho

theorem distinct_step {before after : Pool τ} (h : Step before after) (hd : before.Distinct) :
    after.Distinct := by
  obtain ⟨hworkers, hretired, hnext⟩ := workers_of_step h
  refine hd.of_sublist ?_ hnext
  rw [List.map_append, List.map_append, hworkers]
  exact hretired.append_left _

theorem distinct_shrink {pool : Pool τ} (size : Nat) (hd : pool.Distinct) :
    (pool.shrink size).Distinct := by
  have hperm : ((pool.shrink size).workers ++ (pool.shrink size).retired).Perm
      (pool.workers ++ pool.retired) := by
    calc (pool.workers.take size ++ (pool.retired ++ pool.workers.drop size)).Perm
          (pool.workers.take size ++ (pool.workers.drop size ++ pool.retired)) :=
        List.perm_append_comm.append_left _
      _ = pool.workers ++ pool.retired := by rw [← List.append_assoc, List.take_append_drop]
  exact ⟨(hperm.map _).nodup_iff.2 hd.ids, fun worker hw => hd.fresh worker (hperm.mem_iff.1 hw)⟩

theorem distinct_grow {pool : Pool τ} (size : Nat) (hd : pool.Distinct) :
    (pool.grow size).Distinct := by
  obtain ⟨missing, hm⟩ : ∃ missing, missing = size - pool.size := ⟨_, rfl⟩
  let started : List (Worker τ) := (List.range missing).map fun i => { id := pool.nextWorker + i }
  have hperm : ((pool.grow size).workers ++ (pool.grow size).retired).Perm
      (started ++ (pool.workers ++ pool.retired)) := by
    rw [grow, ← hm]
    exact (List.perm_append_comm.append_right _).trans (.of_eq (List.append_assoc ..))
  have hid : ∀ worker ∈ started,
      pool.nextWorker ≤ worker.id ∧ worker.id < pool.nextWorker + missing := by
    intro worker hw
    obtain ⟨i, hi, rfl⟩ := List.mem_map.1 hw
    exact ⟨Nat.le_add_right _ _, Nat.add_lt_add_left (List.mem_range.1 hi) _⟩
  refine ⟨(hperm.map _).nodup_iff.2 ?_, fun worker hw => ?_⟩
  · rw [List.map_append, List.nodup_append']
    refine ⟨?_, hd.ids, fun id hnew hold => ?_⟩
    · rw [List.map_map]
      exact (List.nodup_range).map fun i j h => Nat.add_left_cancel h
    · obtain ⟨worker, hw, rfl⟩ := List.mem_map.1 hnew
      obtain ⟨other, ho, he⟩ := List.mem_map.1 hold
      have := (hid worker hw).1
      have := hd.fresh other ho
      omega
  · change worker.id < pool.nextWorker + (size - pool.size)
    rw [← hm]
    rcases List.mem_append.1 (hperm.mem_iff.1 hw) with hw | hw
    · exact (hid worker hw).2
    · exact Nat.lt_of_lt_of_le (hd.fresh worker hw) (Nat.le_add_right _ _)

theorem distinct_ofSize (size : Nat) : (ofSize size : Pool τ).Distinct :=
  distinct_grow size ⟨List.nodup_nil, fun _ hw => absurd hw (by simp)⟩

theorem distinct_resize {pool : Pool τ} (size : Nat) (hd : pool.Distinct) :
    (pool.resize size).Distinct := by
  unfold resize
  split
  · have hshrink := distinct_shrink size hd
    simp only
    split
    · exact ⟨hshrink.ids, hshrink.fresh⟩
    · exact hshrink
  · exact distinct_grow size hd

theorem length_grow (pool : Pool τ) (size : Nat) (h : pool.size ≤ size) :
    (pool.grow size).size = size := by
  unfold Pool.size at h ⊢
  simp only [grow, Pool.size, List.length_append, List.length_map, List.length_range]
  omega

theorem length_shrink (pool : Pool τ) (size : Nat) (h : size ≤ pool.size) :
    (pool.shrink size).size = size := by
  unfold Pool.size at h ⊢
  rw [shrink, List.length_take]
  exact Nat.min_eq_left h

theorem size_resize (pool : Pool τ) (size : Nat) : (pool.resize size).size = size := by
  unfold resize
  split
  · rename_i hlt
    have hshrink := length_shrink pool size (Nat.le_of_lt hlt)
    simp only
    split
    · exact hshrink
    · exact hshrink
  · rename_i hle
    exact length_grow pool size (Nat.le_of_not_lt hle)

/-! ## What resizing does to the tasks -/

theorem busy_grow (pool : Pool τ) (size : Nat) : (pool.grow size).busy = pool.busy := by
  simp [busy, grow, List.filterMap_append, List.filterMap_map]

theorem busy_shrink (pool : Pool τ) (size : Nat) : (pool.shrink size).busy.Perm pool.busy := by
  refine List.Perm.filterMap _ ?_
  calc (pool.workers.take size ++ (pool.retired ++ pool.workers.drop size)).Perm
        (pool.workers.take size ++ (pool.workers.drop size ++ pool.retired)) :=
      List.perm_append_comm.append_left _
    _ = pool.workers ++ pool.retired := by rw [← List.append_assoc, List.take_append_drop]

/-- A resize that does not empty the queue only stops workers or only starts some. -/
theorem resize_cases {pool : Pool τ} {size : Nat} (h : size = 0 → pool.size = 0) :
    pool.resize size = pool.shrink size ∨ pool.resize size = pool.grow size := by
  unfold resize
  split
  · rename_i hlt
    exact .inl (if_neg fun h0 => by have := h h0; omega)
  · exact .inr rfl

end Pool

end EventScripts
