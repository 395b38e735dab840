import EventScripts.Proofs.Pool.Fates
/-!
# Tasks and their scopes

The steps of tasks are turns, each of one task. Whatever the order of the turns,
those of one task make a bracket: the task opens its scope once and, if that goes
well, does its work and closes the scope once (`bracket_of_turns`). Tasks that are done
in turn close what they have opened before the next one opens anything
(`alternates_inTurn`).
-/

namespace EventScripts

namespace Occurrence

def isOpening : Occurrence → Bool
  | scopeOpened => true
  | _ => false

def isClosing : Occurrence → Bool
  | scopeClosed => true
  | _ => false

/-- The occurrence is a call of a scope. -/
def isScopeCall : Occurrence → Bool
  | scopeOpened | scopeClosed => true
  | _ => false

/-- The occurrence is a call of a scope or belongs into one: a script is constructed, or a structure
is called. -/
def isBracketed : Occurrence → Bool
  | scopeOpened | scopeClosed | constructed .. | called .. => true
  | _ => false

theorem isScopeCall_of_not_bracketed {o : Occurrence} (h : o.isBracketed = false) :
    o.isScopeCall = false := by
  cases o <;> first | rfl | cases h

theorem isOpening_of_not_scopeCall {o : Occurrence} (h : o.isScopeCall = false) :
    o.isOpening = false := by
  cases o <;> first | rfl | cases h

theorem isClosing_of_not_scopeCall {o : Occurrence} (h : o.isScopeCall = false) :
    o.isClosing = false := by
  cases o <;> first | rfl | cases h

end Occurrence

/-- What is seen of one use of a scope: one opening and, if that goes well, what is inside and then
one closing. Behind it nothing is done that belongs inside. -/
inductive Bracket (opening : Except Fault Unit) (inside : List Occurrence) :
    List Occurrence → Prop where
  | refused {fault : Fault} {rest : List Occurrence} (h : opening = .error fault)
      (hrest : ∀ o ∈ rest, o.isBracketed = false) : Bracket opening inside (.scopeOpened :: rest)
  | closed {rest : List Occurrence} (h : opening = .ok ())
      (hinside : ∀ o ∈ inside, o.isScopeCall = false)
      (hrest : ∀ o ∈ rest, o.isBracketed = false) :
      Bracket opening inside (.scopeOpened :: (inside ++ .scopeClosed :: rest))

/-- The calls of a scope alternate: an opening that goes well is followed by a closing before the
next opening. `n` openings have come before. -/
inductive Scope.Alternates (scope : Scope) : Nat → List Occurrence → Prop where
  | nil (n : Nat) : Alternates scope n []
  | refused {n : Nat} {fault : Fault} {rest : List Occurrence} (h : scope.opening n = .error fault)
      (hrest : Alternates scope (n + 1) rest) : Alternates scope n (.scopeOpened :: rest)
  | closed {n : Nat} {rest : List Occurrence} (h : scope.opening n = .ok ())
      (hrest : Alternates scope (n + 1) rest) :
      Alternates scope n (.scopeOpened :: .scopeClosed :: rest)

theorem filter_scopeCalls {os : List Occurrence} (h : ∀ o ∈ os, o.isScopeCall = false) :
    os.filter Occurrence.isScopeCall = [] :=
  List.filter_eq_nil_iff.2 fun o ho => by simp [h o ho]

theorem Bracket.alternates {scope : Scope} {n : Nat} {inside seen rest : List Occurrence}
    (h : Bracket (scope.opening n) inside seen) (hrest : scope.Alternates (n + 1) rest) :
    scope.Alternates n (seen.filter Occurrence.isScopeCall ++ rest) := by
  cases h with
  | refused h hbehind =>
    rw [List.filter_cons_of_pos rfl,
      filter_scopeCalls fun o ho => Occurrence.isScopeCall_of_not_bracketed (hbehind o ho)]
    exact .refused h hrest
  | closed h hinside hbehind =>
    rw [List.filter_cons_of_pos rfl, List.filter_append, filter_scopeCalls hinside,
      List.nil_append, List.filter_cons_of_pos rfl,
      filter_scopeCalls fun o ho => Occurrence.isScopeCall_of_not_bracketed (hbehind o ho)]
    exact .closed h hrest

/-- A step of a task: whose it is, and what has been seen of it. -/
structure Turn where
  task : Nat
  seen : List Occurrence

namespace Turn

/-- What has been seen of one task. -/
def own (i : Nat) (turns : List Turn) : List Occurrence :=
  (turns.filter (·.task == i)).flatMap seen

/-- The tasks in the order in which they have opened their scopes. -/
def openers (turns : List Turn) : List Nat :=
  (turns.filter (·.seen.any Occurrence.isOpening)).map task

theorem own_append (i : Nat) (turns more : List Turn) :
    own i (turns ++ more) = own i turns ++ own i more := by
  rw [own, List.filter_append, List.flatMap_append]
  rfl

theorem openers_append (turns more : List Turn) :
    openers (turns ++ more) = openers turns ++ openers more := by
  rw [openers, List.filter_append, List.map_append]
  rfl

theorem own_singleton (i : Nat) (turn : Turn) :
    own i [turn] = if turn.task = i then turn.seen else [] := by
  unfold own
  by_cases h : turn.task = i
  · rw [if_pos h, List.filter_cons_of_pos (by simpa using h)]
    exact List.append_nil _
  · rw [if_neg h, List.filter_cons_of_neg (by simpa using h)]
    rfl

end Turn

namespace Task

variable {α : Type} (scope : Scope) (census : Census)

/-- The turns that are taken in the order of a schedule. -/
def turns : List Nat → List (Task α) → ScopeUse → List Turn
  | [], _, _ => []
  | place :: schedule, tasks, use =>
    ⟨place, (stepAt scope census place tasks use).2.2⟩ ::
      turns schedule (stepAt scope census place tasks use).1
        (stepAt scope census place tasks use).2.1

/-- What is seen of tasks is what is seen of their turns. -/
theorem flatMap_turns : ∀ (schedule : List Nat) (tasks : List (Task α)) (use : ScopeUse),
    (turns scope census schedule tasks use).flatMap Turn.seen
      = (follow scope census schedule tasks use).2.2
  | [], _, _ => rfl
  | place :: schedule, tasks, use => by
    rw [turns, List.flatMap_cons, flatMap_turns schedule]
    rfl

/-! ## One task -/

/-- How far a task has come that was the `n`-th to open its scope, and what has been seen of it. -/
inductive Stage (n : Nat) : Task α → List Occurrence → Prop where
  | opened (work : Work α) (h : scope.opening n = .ok ()) : Stage n ⟨work, .opened⟩ [.scopeOpened]
  | worked (work : Work α) (h : scope.opening n = .ok ()) :
      Stage n ⟨work, .worked work.result⟩ (.scopeOpened :: work.occurrences)
  | done (work : Work α) {result : Except WorkFault α} {seen : List Occurrence}
      (h : Bracket (scope.opening n) work.occurrences seen) : Stage n ⟨work, .done result⟩ seen

variable {scope}

theorem not_bracketed_finish (verdict : Except Fault α) :
    ∀ o ∈ (finish census verdict).2, o.isBracketed = false := by
  cases verdict with
  | ok value => nofun
  | error fault =>
    intro o ho
    rw [List.mem_singleton.1 ho]
    rfl

theorem closing_eq (result : Except Fault α) (closed : Except Fault Unit) :
    ∃ rest, closing result closed = .scopeClosed :: rest ∧ ∀ o ∈ rest, o.isBracketed = false := by
  unfold closing
  split
  · refine ⟨_, rfl, fun o ho => ?_⟩
    rw [List.mem_singleton.1 ho]
    rfl
  · exact ⟨[], rfl, nofun⟩

theorem not_opening {os : List Occurrence} (h : ∀ o ∈ os, o.isScopeCall = false) :
    os.any Occurrence.isOpening = false :=
  List.any_eq_false.2 fun o ho => by simp [Occurrence.isOpening_of_not_scopeCall (h o ho)]

theorem not_closing {os : List Occurrence} (h : ∀ o ∈ os, o.isScopeCall = false) :
    os.countP Occurrence.isClosing = 0 :=
  List.countP_eq_zero.2 fun o ho => by simp [Occurrence.isClosing_of_not_scopeCall (h o ho)]

variable (scope) in
/-- The first step of a task opens its scope. -/
theorem stage_of_waiting (work : Work α) (use : ScopeUse) :
    Stage scope use.opened (Task.step scope census ⟨work, .waiting⟩ use).1
        (Task.step scope census ⟨work, .waiting⟩ use).2.2 ∧
      (Task.step scope census ⟨work, .waiting⟩ use).2.1 = { use with opened := use.opened + 1 } ∧
      (Task.step scope census ⟨work, .waiting⟩ use).2.2.any Occurrence.isOpening = true ∧
      (Task.step scope census ⟨work, .waiting⟩ use).2.2.countP Occurrence.isClosing = 0 := by
  simp only [Task.step, Scope.openOnce]
  cases hopen : scope.opening use.opened with
  | error fault =>
    simp only [finish_fst]
    exact ⟨.done work (.refused hopen (not_bracketed_finish census _)), trivial, rfl, rfl⟩
  | ok _ => exact ⟨.opened work hopen, rfl, rfl, rfl⟩

/-- The other steps do not, and go on with the bracket. -/
theorem Stage.step {n : Nat} {task : Task α} {seen : List Occurrence}
    (h : Stage scope n task seen) (hinside : ∀ o ∈ task.work.occurrences, o.isScopeCall = false)
    (use : ScopeUse) :
    Stage scope n (task.step scope census use).1 (seen ++ (task.step scope census use).2.2) ∧
      (task.step scope census use).2.1 = { use with
        closed := use.closed + (task.step scope census use).2.2.countP Occurrence.isClosing } ∧
      (task.step scope census use).2.2.any Occurrence.isOpening = false := by
  cases h with
  | opened work h =>
    refine ⟨.worked work h, ?_, not_opening hinside⟩
    show use = { use with closed := use.closed + work.occurrences.countP Occurrence.isClosing }
    rw [not_closing hinside]
    rfl
  | worked work h =>
    obtain ⟨rest, hclosing, hrest⟩ := closing_eq work.result (scope.closeOnce use).2
    have hbehind : ∀ o ∈ rest ++
        (finish census (settle work.result (scope.closeOnce use).2)).2, o.isBracketed = false :=
      List.forall_mem_append.2 ⟨hrest, not_bracketed_finish census _⟩
    have hquiet : ∀ o ∈ rest ++
        (finish census (settle work.result (scope.closeOnce use).2)).2, o.isScopeCall = false :=
      fun o ho => Occurrence.isScopeCall_of_not_bracketed (hbehind o ho)
    simp only [Task.step, finish_fst, hclosing, List.cons_append]
    refine ⟨.done work (.closed h hinside hbehind), ?_, ?_⟩
    · rw [List.countP_cons_of_pos rfl, not_closing hquiet]
      rfl
    · rw [List.any_cons]
      exact not_opening hquiet
  | done work h =>
    refine ⟨?_, rfl, rfl⟩
    rw [show (Task.step scope census ⟨work, .done _⟩ use).2.2 = [] from rfl, List.append_nil]
    exact .done work h

theorem Stage.bracket {n : Nat} {task : Task α} {seen : List Occurrence}
    (h : Stage scope n task seen) (hleft : task.left = 0) :
    Bracket (scope.opening n) task.work.occurrences seen := by
  cases h with
  | opened | worked => cases hleft
  | done work h => exact h

/-! ## Many tasks -/

theorem stepAt_of_getElem? {task : Task α} {use : ScopeUse} : ∀ {place : Nat}
    {tasks : List (Task α)}, tasks[place]? = some task →
    stepAt scope census place tasks use = (tasks.set place (task.step scope census use).1,
      (task.step scope census use).2.1, (task.step scope census use).2.2)
  | _, [], h => by simp at h
  | 0, first :: rest, h => by
    obtain rfl : first = task := by simpa using h
    rfl
  | place + 1, first :: rest, h => by
    have hrest : rest[place]? = some task := by simpa using h
    rw [stepAt, stepAt_of_getElem? hrest]
    rfl

theorem stepAt_of_getElem?_none {use : ScopeUse} : ∀ {place : Nat} {tasks : List (Task α)},
    tasks[place]? = none → stepAt scope census place tasks use = (tasks, use, [])
  | _, [], _ => by cases ‹Nat› <;> rfl
  | 0, first :: rest, h => by simp at h
  | place + 1, first :: rest, h => by
    have hrest : rest[place]? = none := by simpa using h
    rw [stepAt, stepAt_of_getElem?_none hrest]

theorem openers_singleton_of_any {turn : Turn}
    (h : turn.seen.any Occurrence.isOpening = true) : Turn.openers [turn] = [turn.task] := by
  simp [Turn.openers, h]

theorem openers_singleton_of_not_any {turn : Turn}
    (h : turn.seen.any Occurrence.isOpening = false) : Turn.openers [turn] = [] := by
  simp [Turn.openers, h]

variable {works : List (Work α)} {before : List Turn} {tasks : List (Task α)} {use : ScopeUse}

variable (scope) in
/-- How far the tasks for some works have come after some turns. -/
structure Underway (works : List (Work α)) (before : List Turn) (tasks : List (Task α))
    (use : ScopeUse) : Prop where
  works_eq : tasks.map (·.work) = works
  opened : use.opened = (Turn.openers before).length
  closed : use.closed = (before.flatMap Turn.seen).countP Occurrence.isClosing
  /-- A task is still waiting, or it has opened its scope. -/
  stage : ∀ i task, tasks[i]? = some task →
    (task.progress = .waiting ∧ Turn.own i before = []) ∨
    ∃ n, (Turn.openers before)[n]? = some i ∧ Stage scope n task (Turn.own i before)
  others : ∀ turn ∈ before, works.length ≤ turn.task → turn.seen = []

variable (scope) in
theorem underway_start (works : List (Work α)) :
    Underway scope works [] (works.map fun work => { work }) {} where
  works_eq := by
    rw [List.map_map]
    exact List.map_id' works
  opened := rfl
  closed := rfl
  stage i task h := by
    rw [List.getElem?_map] at h
    obtain ⟨work, -, rfl⟩ := Option.map_eq_some_iff.1 h
    exact .inl ⟨rfl, rfl⟩
  others := nofun

variable (scope) in
theorem work_step (task : Task α) (use : ScopeUse) :
    (task.step scope census use).1.work = task.work := by
  obtain ⟨work, progress⟩ := task
  cases progress with
  | waiting =>
    simp only [Task.step, Scope.openOnce]
    cases scope.opening use.opened <;> rfl
  | opened | worked | done => rfl

theorem map_work_set {place : Nat} {task : Task α} (h : tasks[place]? = some task)
    (use : ScopeUse) :
    (tasks.set place (task.step scope census use).1).map (·.work) = tasks.map (·.work) := by
  rw [List.map_set, work_step scope census]
  refine List.ext_getElem? fun i => ?_
  by_cases hne : place = i
  · subst hne
    rw [List.getElem?_set_self', List.getElem?_map, h]
    rfl
  · rw [List.getElem?_set_ne hne]

/-- What is seen of the other tasks does not change. -/
theorem Underway.stage_other (h : Underway scope works before tasks use) {i : Nat} {task : Task α}
    {turn : Turn} (hi : tasks[i]? = some task) (hne : turn.task ≠ i) :
    (task.progress = .waiting ∧ Turn.own i (before ++ [turn]) = []) ∨
    ∃ n, (Turn.openers (before ++ [turn]))[n]? = some i ∧
      Stage scope n task (Turn.own i (before ++ [turn])) := by
  rw [Turn.own_append, Turn.own_singleton, if_neg hne, List.append_nil]
  refine (h.stage i task hi).imp_right fun ⟨n, hn, hstage⟩ => ⟨n, ?_, hstage⟩
  rw [Turn.openers_append, List.getElem?_append_left (List.getElem?_eq_some_iff.1 hn).1, hn]

/-- The task opens its scope now, or has opened it before. -/
theorem Underway.stage_self (h : Underway scope works before tasks use)
    (hinside : ∀ work ∈ works, ∀ o ∈ work.occurrences, o.isScopeCall = false) {place : Nat}
    {task : Task α} (hplace : tasks[place]? = some task) :
    (task.step scope census use).2.1 = ⟨(Turn.openers (before ++
        [⟨place, (task.step scope census use).2.2⟩])).length,
      use.closed + (task.step scope census use).2.2.countP Occurrence.isClosing⟩ ∧
    ∃ n, (Turn.openers (before ++ [⟨place, (task.step scope census use).2.2⟩]))[n]? = some place ∧
      Stage scope n (task.step scope census use).1
        (Turn.own place before ++ (task.step scope census use).2.2) := by
  have hwork : task.work ∈ works := by
    rw [← h.works_eq]
    exact List.mem_map_of_mem (List.mem_of_getElem? hplace)
  rw [Turn.openers_append]
  rcases h.stage place task hplace with ⟨hwaiting, hown⟩ | ⟨n, hn, hstage⟩
  · obtain ⟨work, progress⟩ := task
    subst hwaiting
    obtain ⟨hstage, huse, hopens, hcloses⟩ := stage_of_waiting scope census work use
    have hopeners : Turn.openers [⟨place, _⟩] = [place] := openers_singleton_of_any hopens
    rw [hopeners, huse, hcloses, hown, h.opened, List.length_append]
    rw [h.opened] at hstage
    exact ⟨rfl, _, List.getElem?_concat_length, hstage⟩
  · obtain ⟨hnext, huse, hopens⟩ := hstage.step census (hinside _ hwork) use
    have hopeners : Turn.openers [⟨place, _⟩] = [] := openers_singleton_of_not_any hopens
    rw [hopeners, List.append_nil, ← h.opened]
    exact ⟨huse, n, hn, hnext⟩

/-- **One turn** takes a task further in its bracket. -/
theorem Underway.stepAt (h : Underway scope works before tasks use)
    (hinside : ∀ work ∈ works, ∀ o ∈ work.occurrences, o.isScopeCall = false) (place : Nat) :
    Underway scope works (before ++ [⟨place, (stepAt scope census place tasks use).2.2⟩])
      (Task.stepAt scope census place tasks use).1
      (Task.stepAt scope census place tasks use).2.1 := by
  cases hplace : tasks[place]? with
  | none =>
    rw [stepAt_of_getElem?_none census hplace]
    have hsilent : Turn.openers [⟨place, []⟩] = [] := openers_singleton_of_not_any rfl
    refine ⟨h.works_eq, ?_, ?_, fun i task hi => h.stage_other hi ?_,
      fun turn hturn hlength => ?_⟩
    · rw [Turn.openers_append, hsilent, List.append_nil, h.opened]
    · rw [List.flatMap_append, h.closed]
      simp
    · rintro rfl
      rw [hplace] at hi
      cases hi
    · rcases List.mem_append.1 hturn with hturn | hturn
      · exact h.others turn hturn hlength
      · rw [List.mem_singleton.1 hturn]
  | some task =>
    rw [stepAt_of_getElem? census hplace]
    have hlt : place < tasks.length := (List.getElem?_eq_some_iff.1 hplace).1
    obtain ⟨huse, hnext⟩ := h.stage_self census hinside hplace
    refine ⟨?_, congrArg ScopeUse.opened huse, ?_, fun i other hi => ?_,
      fun turn hturn hlength => ?_⟩
    · rw [map_work_set census hplace, h.works_eq]
    · rw [congrArg ScopeUse.closed huse, h.closed, List.flatMap_append, List.countP_append]
      simp
    · by_cases hne : place = i
      · subst hne
        rw [List.getElem?_set_self hlt] at hi
        obtain rfl := Option.some.inj hi
        rw [Turn.own_append, Turn.own_singleton, if_pos rfl]
        exact .inr hnext
      · rw [List.getElem?_set_ne hne] at hi
        exact h.stage_other hi hne
    · rcases List.mem_append.1 hturn with hturn | hturn
      · exact h.others turn hturn hlength
      · rw [List.mem_singleton.1 hturn, ← h.works_eq, List.length_map] at hlength
        exact absurd hlt (Nat.not_lt.2 hlength)

/-- Any number of turns does. -/
theorem Underway.follow
    (hinside : ∀ work ∈ works, ∀ o ∈ work.occurrences, o.isScopeCall = false) :
    ∀ (schedule : List Nat) {before : List Turn} {tasks : List (Task α)} {use : ScopeUse},
    Underway scope works before tasks use →
    Underway scope works (before ++ turns scope census schedule tasks use)
      (follow scope census schedule tasks use).1 (Task.follow scope census schedule tasks use).2.1
  | [], before, tasks, use, h => by
    rw [turns, List.append_nil]
    exact h
  | place :: schedule, before, tasks, use, h => by
    rw [turns, List.append_cons]
    exact follow hinside schedule (h.stepAt census hinside place)

/-- **The turns of each task make a bracket**, whatever the schedule. -/
theorem bracket_of_turns
    (hinside : ∀ work ∈ works, ∀ o ∈ work.occurrences, o.isScopeCall = false)
    (schedule : List Nat) {all : List Turn}
    (hall : all = turns scope census (schedule ++ inTurn works.length)
      (works.map fun work => { work }) {}) :
    (∀ i work, works[i]? = some work → ∃ n, (Turn.openers all)[n]? = some i ∧
      Bracket (scope.opening n) work.occurrences (Turn.own i all)) ∧
    (∀ turn ∈ all, works.length ≤ turn.task → turn.seen = []) ∧
    (runAll scope census schedule works {}).2.1 = ⟨(Turn.openers all).length,
      (all.flatMap Turn.seen).countP Occurrence.isClosing⟩ := by
  have h := Underway.follow census hinside (schedule ++ inTurn works.length)
    (underway_start scope works)
  rw [List.nil_append, ← hall] at h
  have huse : (runAll scope census schedule works {}).2.1 = ⟨(Turn.openers all).length,
      (all.flatMap Turn.seen).countP Occurrence.isClosing⟩ := by
    rw [← h.opened, ← h.closed]
    rfl
  refine ⟨fun i work hi => ?_, h.others, huse⟩
  obtain ⟨task, htask, hleft⟩ := getElem?_follow scope census (schedule ++ inTurn works.length)
    (works.map fun work => { work }) {} i { work } (by rw [List.getElem?_map, hi]; rfl)
  have hdone : task.left = 0 := by
    have hcount := count_inTurn (List.getElem?_eq_some_iff.1 hi).1
    have hthree : ({ work } : Task α).left = 3 := rfl
    rw [List.count_append, hcount, hthree, stepCount] at hleft
    omega
  have hwork : task.work = work := by
    have hmap := congrArg (·[i]?) h.works_eq
    simp only [List.getElem?_map, htask, hi] at hmap
    exact Option.some.inj hmap
  rcases h.stage i task htask with ⟨hwaiting, -⟩ | ⟨n, hn, hstage⟩
  · rw [left, hwaiting] at hdone
    cases hdone
  · rw [← hwork]
    exact ⟨n, hn, hstage.bracket hdone⟩

/-! ## Tasks in turn -/

theorem stepAt_append (front rest : List (Task α)) (task : Task α) (use : ScopeUse) :
    Task.stepAt scope census front.length (front ++ task :: rest) use
      = (front ++ (task.step scope census use).1 :: rest, (task.step scope census use).2.1,
        (task.step scope census use).2.2) := by
  have htask : (front ++ task :: rest)[front.length]? = some task := by simp
  rw [stepAt_of_getElem? census htask, List.set_append_right _ _ (Nat.le_refl _), Nat.sub_self]
  rfl

/-- Takes a task a number of steps further. -/
def steps (scope : Scope) (census : Census) :
    Nat → Task α → ScopeUse → Task α × ScopeUse × List Occurrence
  | 0, task, use => (task, use, [])
  | count + 1, task, use =>
    let (task, use, seen) := task.step scope census use
    let (task, use, more) := steps scope census count task use
    (task, use, seen ++ more)

theorem follow_replicate (schedule : List Nat) (front rest : List (Task α)) :
    ∀ (count : Nat) (task : Task α) (use : ScopeUse),
    Task.follow scope census (List.replicate count front.length ++ schedule)
      (front ++ task :: rest) use
      = ((Task.follow scope census schedule (front ++ (steps scope census count task use).1 :: rest)
          (steps scope census count task use).2.1).1,
        (Task.follow scope census schedule (front ++ (steps scope census count task use).1 :: rest)
          (steps scope census count task use).2.1).2.1,
        (steps scope census count task use).2.2 ++ (Task.follow scope census schedule
          (front ++ (steps scope census count task use).1 :: rest)
          (steps scope census count task use).2.1).2.2)
  | 0, _, _ => rfl
  | count + 1, task, use => by
    rw [List.replicate_succ, List.cons_append, Task.follow, stepAt_append]
    simp only
    rw [follow_replicate schedule front rest count]
    simp only [steps, List.append_assoc]

theorem Stage.steps {n : Nat} : ∀ (count : Nat) {task : Task α} {seen : List Occurrence}
    (use : ScopeUse), Stage scope n task seen →
    (∀ o ∈ task.work.occurrences, o.isScopeCall = false) →
    Stage scope n (Task.steps scope census count task use).1
        (seen ++ (Task.steps scope census count task use).2.2) ∧
      (Task.steps scope census count task use).2.1.opened = use.opened ∧
      (Task.steps scope census count task use).1.work = task.work ∧
      (Task.steps scope census count task use).1.left ≤ task.left - count
  | 0, task, seen, use, h, _ => by
    refine ⟨?_, rfl, rfl, Nat.le_refl _⟩
    rw [show (Task.steps scope census 0 task use).2.2 = [] from rfl, List.append_nil]
    exact h
  | count + 1, task, seen, use, h, hinside => by
    obtain ⟨hstage, huse, -⟩ := h.step census hinside use
    have hopened := congrArg ScopeUse.opened huse
    have hwork := work_step scope census task use
    have hleft := left_step scope census task use
    obtain ⟨hlast, hopens, hworks, hlefts⟩ := hstage.steps count
      (task.step scope census use).2.1 (by rwa [hwork])
    rw [List.append_assoc] at hlast
    refine ⟨hlast, hopens.trans hopened, hworks.trans hwork, Nat.le_trans hlefts ?_⟩
    omega

variable (scope) in
/-- The steps of a task, one after the other, make a bracket. -/
theorem bracket_of_steps (work : Work α)
    (hinside : ∀ o ∈ work.occurrences, o.isScopeCall = false) (use : ScopeUse) :
    Bracket (scope.opening use.opened) work.occurrences
        (steps scope census stepCount { work } use).2.2 ∧
      (steps scope census stepCount { work } use).2.1.opened = use.opened + 1 := by
  obtain ⟨hstage, huse, -⟩ := stage_of_waiting scope census work use
  have hopened := congrArg ScopeUse.opened huse
  have hwork := work_step scope census { work } use
  have hleft := left_step scope census { work } use
  obtain ⟨hlast, hopens, hworks, hlefts⟩ := hstage.steps census 2
    (Task.step scope census { work } use).2.1 (by rwa [hwork])
  have hwaiting : ({ work } : Task α).left = 3 := rfl
  have hbracket := hlast.bracket (by omega)
  rw [hworks, hwork] at hbracket
  exact ⟨hbracket, hopens.trans hopened⟩

/-- **Tasks that are done in turn** make brackets one after the other. -/
theorem alternates_inTurn : ∀ (works : List (Work α)) (front : List (Task α)) (use : ScopeUse),
    (∀ work ∈ works, ∀ o ∈ work.occurrences, o.isScopeCall = false) →
    ∀ {schedule : List Nat}, schedule = (List.range' front.length works.length).flatMap
      (List.replicate stepCount ·) →
    ∀ {rest : List Occurrence}, scope.Alternates (Task.follow scope census schedule
      (front ++ works.map (⟨·, .waiting⟩)) use).2.1.opened rest →
    scope.Alternates use.opened ((Task.follow scope census schedule
      (front ++ works.map (⟨·, .waiting⟩)) use).2.2.filter Occurrence.isScopeCall ++ rest)
  | [], front, use, _, schedule, hs, rest, h => by
    subst hs
    exact h
  | work :: works, front, use, hinside, schedule, hs, rest, h => by
    obtain ⟨hbracket, hopened⟩ := bracket_of_steps scope census work
      (hinside work List.mem_cons_self) use
    rw [List.length_cons, List.range'_succ, List.flatMap_cons] at hs
    rw [hs, List.map_cons, follow_replicate, List.append_cons] at h ⊢
    rw [List.filter_append, List.append_assoc]
    refine hbracket.alternates ?_
    rw [← hopened]
    exact alternates_inTurn works _ _ (fun w hw => hinside w (List.mem_cons_of_mem _ hw))
      (by rw [List.length_append, List.length_singleton]) h

end Task

end EventScripts
