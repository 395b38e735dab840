import EventScripts.Proofs.Loader.Journal
import EventScripts.Proofs.Loader.Kept
/-!
# What is seen of calls

A trace tells which structures were called, in order, and which problems were
reported. A call adds itself and, if the structure does not stay, one problem;
what the structure does meanwhile adds neither. So a list of calls that follow
each other is seen as that list.
-/

namespace EventScripts

/-- A call as it is seen: the phase, the script and the name of the structure. -/
abbrev Occurrence.Called := Phase × Path × String

namespace Occurrence

def called? : Occurrence → Option Called
  | called phase script owner _ => some (phase, script, owner)
  | _ => none

def problem? : Occurrence → Option Problem
  | reported problem _ => some problem
  | _ => none

/-- The occurrence is neither a call nor a report. -/
def Silent (o : Occurrence) : Prop := o.called? = none ∧ o.problem? = none

/-- The calls among occurrences. -/
def calls (os : List Occurrence) : List Called := os.filterMap called?

/-- The problems reported among occurrences. -/
def problems (os : List Occurrence) : List Problem := os.filterMap problem?

theorem calls_append (os more : List Occurrence) : calls (os ++ more) = calls os ++ calls more :=
  List.filterMap_append

theorem problems_append (os more : List Occurrence) :
    problems (os ++ more) = problems os ++ problems more :=
  List.filterMap_append

theorem calls_of_silent {os : List Occurrence} (h : ∀ o ∈ os, o.Silent) : calls os = [] :=
  List.filterMap_eq_nil_iff.2 fun o ho => (h o ho).1

theorem problems_of_silent {os : List Occurrence} (h : ∀ o ∈ os, o.Silent) : problems os = [] :=
  List.filterMap_eq_nil_iff.2 fun o ho => (h o ho).2

theorem calls_reported (census : Census) (ps : List Problem) :
    calls (ps.map (Occurrence.reported · census)) = [] :=
  List.filterMap_eq_nil_iff.2 fun o ho => by
    obtain ⟨p, -, rfl⟩ := List.mem_map.1 ho
    rfl

theorem problems_reported (census : Census) (ps : List Problem) :
    problems (ps.map (Occurrence.reported · census)) = ps := by
  rw [problems, List.filterMap_map]
  exact List.filterMap_some

end Occurrence

namespace Runtime

variable {σ : Type}

/-- From one runtime to another, some calls are seen and some problems. -/
structure Shows (rt last : Runtime σ) (calls : List Occurrence.Called) (problems : List Problem) :
    Prop where
  calls : Occurrence.calls last.trace = Occurrence.calls rt.trace ++ calls
  problems : Occurrence.problems last.trace = Occurrence.problems rt.trace ++ problems

theorem Shows.refl (rt : Runtime σ) : Shows rt rt [] [] := ⟨by simp, by simp⟩

theorem Shows.trans {rt mid last : Runtime σ} {calls more : List Occurrence.Called}
    {problems others : List Problem} (h : Shows rt mid calls problems)
    (h' : Shows mid last more others) : Shows rt last (calls ++ more) (problems ++ others) :=
  ⟨by rw [h'.calls, h.calls, List.append_assoc],
    by rw [h'.problems, h.problems, List.append_assoc]⟩

theorem Shows.silent {rt mid last : Runtime σ} {calls : List Occurrence.Called}
    {problems : List Problem} (h : Shows rt mid calls problems) (h' : Shows mid last [] []) :
    Shows rt last calls problems := by
  simpa using h.trans h'

theorem shows_of_trace {rt last : Runtime σ} {os : List Occurrence}
    (h : last.trace = rt.trace ++ os) :
    Shows rt last (Occurrence.calls os) (Occurrence.problems os) :=
  ⟨by rw [h, Occurrence.calls_append], by rw [h, Occurrence.problems_append]⟩

theorem shows_of_silent {rt last : Runtime σ} {os : List Occurrence}
    (h : last.trace = rt.trace ++ os) (hs : ∀ o ∈ os, o.Silent) : Shows rt last [] [] := by
  have hshows := shows_of_trace h
  rwa [Occurrence.calls_of_silent hs, Occurrence.problems_of_silent hs] at hshows

theorem shows_record (rt : Runtime σ) (os : List Occurrence) :
    Shows rt (rt.record os) (Occurrence.calls os) (Occurrence.problems os) := shows_of_trace rfl

theorem shows_report (rt : Runtime σ) (problem : Problem) :
    Shows rt (rt.report problem) [] [problem] := shows_record rt _

theorem shows_reports (rt : Runtime σ) (census : Census) (ps : List Problem) :
    Shows rt (rt.record (ps.map (.reported · census))) [] ps := by
  have h := shows_record rt (ps.map (.reported · census))
  rwa [Occurrence.calls_reported, Occurrence.problems_reported] at h

theorem silent_host (calls : List HostCall) : ∀ o ∈ calls.map Occurrence.host, o.Silent := by
  intro o ho
  obtain ⟨call, -, rfl⟩ := List.mem_map.1 ho
  exact ⟨rfl, rfl⟩

theorem shows_bind (rt : Runtime σ) (trigger : Trigger) : Shows rt (rt.bind trigger).1 [] [] := by
  unfold bind
  split
  · exact Shows.refl rt
  · refine shows_of_silent rfl fun o ho => ?_
    rcases List.mem_append.1 ho with ho | ho
    · exact silent_host _ o ho
    · rw [List.mem_singleton.1 ho]
      exact ⟨rfl, rfl⟩

theorem shows_release (rt : Runtime σ) (id : TriggerId) : Shows rt (rt.release id).1 [] [] := by
  refine shows_of_silent rfl fun o ho => ?_
  rcases List.mem_append.1 ho with ho | ho
  · exact silent_host _ o ho
  · split at ho
    · rw [List.mem_singleton.1 ho]
      exact ⟨rfl, rfl⟩
    · cases ho

theorem shows_enter (rt : Runtime σ) (script : Script σ) :
    Shows rt (rt.enter script).1 [] [] := by
  unfold enter
  split
  · exact Shows.refl rt
  · refine shows_of_silent rfl fun o ho => ?_
    rw [List.mem_singleton.1 ho]
    exact ⟨rfl, rfl⟩

/-- What a structure does itself is neither a call nor a report. -/
theorem shows_perform (rt : Runtime σ) (action : Action σ) :
    Shows rt (rt.perform action).1 [] [] := by
  have add : ∀ mid last : Runtime σ, Shows mid last [] [] → Shows rt mid [] [] →
      Shows rt last [] [] := fun _ _ h hm => hm.trans h
  refine perform_induction (fun mid r => add mid _ ?_) (fun mid t => add mid _ (shows_bind mid t))
    (fun mid id => add mid _ (shows_release mid id))
    (fun mid s => add mid _ (shows_enter mid s)) action (Shows.refl rt)
  refine shows_of_silent rfl fun o ho => ?_
  rw [List.mem_singleton.1 ho]
  exact ⟨rfl, rfl⟩

end Runtime

namespace Call

variable {σ : Type} [Structure σ]

/-- The call as it is seen. -/
def line (c : Call σ) : Occurrence.Called :=
  (c.phase, c.member.path, Structure.name c.member.self)

/-- The runtime in which the structure begins to act. -/
def begun (c : Call σ) : Runtime σ :=
  c.before.record [.called c.phase c.member.path (Structure.name c.member.self)
    c.before.registry.census]

/-- What the structure's action comes to. -/
def acted (c : Call σ) : Runtime σ × Except Fault Bool × σ :=
  c.begun.perform (Structure.act c.phase c.member.path c.member.self)

/-- The problem of a structure that does not stay, with the fault if there was one. -/
def problem (c : Call σ) (cause : Option Fault) : Problem :=
  .phaseFailed c.phase c.member.path (Structure.name c.member.self) cause

/-- The fault that ended the action. -/
def fault? (c : Call σ) : Option Fault :=
  match c.acted.2.1 with
  | .ok _ => none
  | .error fault => some fault

/-- What is reported of a call: nothing if the structure stays, else one problem that names the
phase, the script and the structure. -/
def problems (c : Call σ) : List Problem := if c.accepted then [] else [c.problem c.fault?]

/-- The structure accepts: it does unless it faults or, in activation, turns itself away. -/
def Accepts (c : Call σ) : Prop :=
  ∃ stays, c.acted.2.1 = .ok stays ∧ (stays = true ∨ c.phase.isActivation = false)

/-- A call leaves what its action has left; if the structure does not accept, a report is added. -/
theorem outcome_cases (c : Call σ) :
    c.Accepts ∧ c.outcome = (c.acted.1, true, c.acted.2.2) ∨
      ¬c.Accepts ∧ c.outcome = (c.acted.1.report (c.problem c.fault?), false, c.acted.2.2) := by
  have houtcome : c.outcome = match c.acted.2.1 with
      | .ok stays =>
        if stays || !c.phase.isActivation then (c.acted.1, true, c.acted.2.2)
        else (c.acted.1.report (c.problem none), false, c.acted.2.2)
      | .error fault => (c.acted.1.report (c.problem (some fault)), false, c.acted.2.2) := rfl
  rw [houtcome, fault?, Accepts]
  cases c.acted.2.1 with
  | error fault => exact Or.inr ⟨by simp, rfl⟩
  | ok stays =>
    by_cases hs : (stays || !c.phase.isActivation) = true
    · exact Or.inl ⟨⟨stays, rfl, by simpa using hs⟩, if_pos hs⟩
    · exact Or.inr ⟨by simpa using hs, if_neg hs⟩

/-- How a call comes out. -/
structure Outcome (c : Call σ) : Prop where
  accepted : c.accepted = true ↔ c.Accepts
  /-- The structure is left as its action has left it. -/
  next : c.next = { c.member with self := c.acted.2.2 }
  /-- What its action has done stays done, and nothing is added but reports. -/
  after : c.after = c.problems.foldl Runtime.report c.acted.1
  quiet : c.Accepts → c.problems = []
  /-- A structure that does not accept is reported once, with its phase and its script, and with the
  fault if that is why. -/
  reported : ¬c.Accepts → ∃ cause,
    c.problems = [.phaseFailed c.phase c.member.path (Structure.name c.member.self) cause] ∧
    ∀ fault, cause = some fault ↔ c.acted.2.1 = .error fault

/-- **Every call comes out so**, whatever the structure does. -/
theorem outcome_spec (c : Call σ) : c.Outcome := by
  have hfault : ∀ fault, c.fault? = some fault ↔ c.acted.2.1 = .error fault := by
    intro fault
    unfold fault?
    cases c.acted.2.1 <;> simp
  rcases c.outcome_cases with ⟨haccepts, houtcome⟩ | ⟨hrefuses, houtcome⟩
  · have hproblems : c.problems = [] := by simp [problems, accepted, houtcome]
    constructor
    case accepted => simp [accepted, houtcome, haccepts]
    case next => rw [next, houtcome]
    case after =>
      rw [after, houtcome, hproblems]
      rfl
    case quiet => exact fun _ => hproblems
    case reported => exact absurd haccepts
  · have hproblems : c.problems = [c.problem c.fault?] := by simp [problems, accepted, houtcome]
    constructor
    case accepted => simp [accepted, houtcome, hrefuses]
    case next => rw [next, houtcome]
    case after =>
      rw [after, houtcome, hproblems]
      rfl
    case quiet => exact (absurd · hrefuses)
    case reported => exact fun _ => ⟨c.fault?, hproblems, hfault⟩

/-- A call is seen as itself and the problem reported of it. -/
theorem shows_after (c : Call σ) : Runtime.Shows c.before c.after [c.line] c.problems := by
  have hacted : Runtime.Shows c.before c.acted.1 [c.line] [] :=
    (Runtime.shows_record c.before _).trans (Runtime.shows_perform c.begun _)
  unfold after problems accepted
  rcases c.outcome_cases with ⟨-, houtcome⟩ | ⟨-, houtcome⟩
  · rw [houtcome]
    exact hacted
  · rw [houtcome]
    exact hacted.trans (Runtime.shows_report _ _)

/-- **Calls that follow each other are seen in that order**, each with its problem. -/
theorem shows_linked : ∀ {calls : List (Call σ)} {rt last : Runtime σ}, Linked rt calls last →
    Runtime.Shows rt last (calls.map line) (calls.flatMap problems)
  | [], rt, _, h => by
    cases h
    exact Runtime.Shows.refl rt
  | c :: rest, _, _, h => by
    obtain ⟨rfl, hrest⟩ := h
    exact c.shows_after.trans (shows_linked hrest)

end Call

end EventScripts
