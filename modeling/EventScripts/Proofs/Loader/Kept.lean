import EventScripts.Loader.Basic
/-!
# What is kept whatever structures do

A structure acts on a runtime through five operations. A property that each of
them keeps is kept by every action, and so by every call, and by the phases in
which the structures of a batch are called; nothing has to be known about the
structures.
-/

namespace EventScripts

namespace Occurrence

def entry? : Occurrence → Option Path
  | entered script => some script
  | _ => none

/-- The paths of the scripts that have been entered into the registry, among occurrences. -/
def entries (os : List Occurrence) : List Path := os.filterMap entry?

theorem entries_append (os more : List Occurrence) :
    entries (os ++ more) = entries os ++ entries more :=
  List.filterMap_append

theorem entries_map {α : Type} {f : α → Occurrence} (h : ∀ a, Occurrence.entry? (f a) = none)
    (as : List α) : entries (as.map f) = [] := by
  rw [entries, List.filterMap_map]
  exact List.filterMap_eq_nil_iff.2 fun a _ => h a

def hostCall? : Occurrence → Option HostCall
  | host call => some call
  | _ => none

/-- What the host is asked to do, among occurrences. -/
def hostCalls (os : List Occurrence) : List HostCall := os.filterMap hostCall?

theorem hostCalls_append (os more : List Occurrence) :
    hostCalls (os ++ more) = hostCalls os ++ hostCalls more :=
  List.filterMap_append

theorem hostCalls_map {α : Type} {f : α → Occurrence} (h : ∀ a, Occurrence.hostCall? (f a) = none)
    (as : List α) : hostCalls (as.map f) = [] := by
  rw [hostCalls, List.filterMap_map]
  exact List.filterMap_eq_nil_iff.2 fun a _ => h a

theorem hostCalls_host (calls : List HostCall) : hostCalls (calls.map host) = calls := by
  rw [hostCalls, List.filterMap_map]
  exact List.filterMap_some

end Occurrence

namespace Runtime

variable {σ : Type} {P : Runtime σ → Prop}

theorem registry_bind (rt : Runtime σ) (trigger : Trigger) :
    (rt.bind trigger).1.registry = rt.registry := by
  unfold bind
  split <;> rfl

theorem router_enter (rt : Runtime σ) (script : Script σ) :
    (rt.enter script).1.router = rt.router := by
  unfold enter
  split <;> rfl

/-- An action keeps what its operations keep. -/
theorem perform_induction (remark : ∀ rt r, P rt → P (rt.record [.remarked r]))
    (bind : ∀ rt t, P rt → P (rt.bind t).1) (release : ∀ rt id, P rt → P (rt.release id).1)
    (enter : ∀ rt s, P rt → P (rt.enter s).1) (action : Action σ) :
    ∀ {rt : Runtime σ}, P rt → P (rt.perform action).1 := by
  induction action with
  | finish verdict self => exact fun h => h
  | bind trigger next ih => exact fun h => ih _ (bind _ trigger h)
  | release id next ih => exact fun h => ih _ (release _ id h)
  | enroll script next ih => exact fun h => ih _ (enter _ script h)
  | look next ih => exact fun h => ih _ h
  | remark r next ih => exact fun h => ih (remark _ r h)

section

variable [Structure σ]

/-- What the calls of a phase keep is kept when structures are called in turn. -/
theorem callAll_induction {phase : Phase} {script : Path}
    (call : ∀ self rt, P rt → P (rt.call phase script self).1) :
    ∀ (structures : List σ) {rt : Runtime σ}, P rt → P (rt.callAll phase script structures).1
  | [], _, h => h
  | self :: rest, _, h => callAll_induction call rest (call self _ h)

theorem unloadPass_induction (call : ∀ script self rt, P rt → P (rt.call .unload script self).1) :
    ∀ (scripts : List (Script σ)) {rt : Runtime σ}, P rt → P (rt.unloadPass scripts).1
  | [], _, h => h
  | script :: rest, _, h =>
    unloadPass_induction call rest (callAll_induction (call script.path) script.structures h)

theorem postUnloadPass_induction (record : ∀ rt path, P rt → P (rt.record [.discarded path]))
    (call : ∀ script self rt, P rt → P (rt.call .postUnload script self).1) :
    ∀ (scripts : List (Script σ)) {rt : Runtime σ}, P rt → P (rt.postUnloadPass scripts)
  | [], _, h => h
  | script :: rest, _, h =>
    postUnloadPass_induction record call rest
      (record _ _ (callAll_induction (call script.path) script.structures h))

end

/-- The property survives the operations on a runtime. Only entering a script is recorded as
that, and only binding and releasing ask anything of the host. -/
structure Kept (P : Runtime σ → Prop) : Prop where
  record : ∀ rt os, Occurrence.entries os = [] → Occurrence.hostCalls os = [] → P rt →
    P (rt.record os)
  bind : ∀ rt trigger, P rt → P (rt.bind trigger).1
  release : ∀ rt id, P rt → P (rt.release id).1
  enter : ∀ rt script, P rt → P (rt.enter script).1

namespace Kept

variable {rt : Runtime σ}

theorem perform (hk : Kept P) (action : Action σ) (h : P rt) : P (rt.perform action).1 :=
  perform_induction (fun rt _ => hk.record rt _ rfl rfl) hk.bind hk.release hk.enter action h

theorem report (hk : Kept P) (problem : Problem) (h : P rt) : P (rt.report problem) :=
  hk.record rt _ rfl rfl h

theorem enterAll (hk : Kept P) : ∀ (scripts : List (Script σ)) {rt : Runtime σ}, P rt →
    P (rt.enterAll scripts).1
  | [], _, h => h
  | script :: rest, rt, h => by
    have henter := hk.enter rt script h
    unfold Runtime.enterAll
    generalize rt.enter script = entered at henter
    obtain ⟨rt, answer⟩ := entered
    cases answer with
    | error violation => exact enterAll hk rest (hk.report _ henter)
    | ok _ => exact enterAll hk rest (hk.record rt _ rfl rfl henter)

variable [Structure σ]

theorem call (hk : Kept P) (phase : Phase) (script : Path) (self : σ) (h : P rt) :
    P (rt.call phase script self).1 := by
  have hp := hk.perform (Structure.act phase script self)
    (hk.record rt [.called phase script (Structure.name self) rt.registry.census] rfl rfl h)
  unfold Runtime.call
  simp only
  split
  · split
    · exact hp
    · exact hk.report _ hp
  · exact hk.report _ hp

theorem unloadPass (hk : Kept P) (scripts : List (Script σ)) (h : P rt) :
    P (rt.unloadPass scripts).1 :=
  unloadPass_induction (fun script self _ => hk.call .unload script self) scripts h

theorem postUnloadPass (hk : Kept P) (scripts : List (Script σ)) (h : P rt) :
    P (rt.postUnloadPass scripts) :=
  postUnloadPass_induction (fun rt _ => hk.record rt _ rfl rfl)
    (fun script self _ => hk.call .postUnload script self) scripts h

/-- What does not depend on the registry is kept when scripts are taken out of it. -/
theorem unload (hk : Kept P) (hregistry : ∀ (rt : Runtime σ) registry, P rt → P { rt with registry })
    (paths : List Path) (h : P rt) : P (rt.unload paths).1 :=
  hregistry _ _ (hk.postUnloadPass _ (hk.unloadPass (rt.registry.take paths).1 (hregistry rt _ h)))

end Kept

end Runtime

end EventScripts
