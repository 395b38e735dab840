import EventScripts.Proofs.Loader.Undisturbed
/-!
# Batches that come to nothing

A batch is refused before any work if its inputs clash with each other or with
what is loaded, and it comes to nothing later if the scope around its activation
does not open. `load_atomic` says when exactly, how far the batch has got by
then, and that registry, router and host are as they were.

How far a refused batch has got is said by what it cannot depend on: grammar,
scope, schedule, and of the files everything but where the inputs lead.

`SPEC_FULL.md` §10.3 and §10.6 want a violation to be returned before any work starts.
-/

namespace EventScripts

/-- Two inputs lead to the same file, or one leads to a file that is loaded. Inputs that lead
nowhere do not count. -/
inductive Clash {σ : Type} (registry : Registry σ) (files : FileSystem) (paths : List Path) : Prop
  | twice {p q a b : Path} : [p, q].Sublist paths → files.canonical p = .ok a →
    files.canonical q = .ok b → a.same b = true → Clash registry files paths
  | loaded {p a : Path} : p ∈ paths → files.canonical p = .ok a → registry.isLoaded a = true →
    Clash registry files paths

namespace Registry

variable {σ : Type}

/-- The check of a batch passes over paths that differ from each other and from those seen before,
and none of which is loaded. -/
theorem violation?_of_free {registry : Registry σ} : ∀ {paths seen : List Path},
    (paths.Pairwise fun a b => a.components ≠ b.components) →
    (∀ p ∈ paths, registry.isLoaded p = false) →
    (∀ p ∈ paths, ∀ q ∈ seen, p.components ≠ q.components) →
    registry.violation? seen paths = none
  | [], _, _, _, _ => rfl
  | path :: rest, seen, hp, hfree, hseen => by
    obtain ⟨hpath, hrest⟩ := List.pairwise_cons.1 hp
    have hnew : seen.any path.same = false := by
      rw [List.any_eq_false]
      intro q hq hsame
      exact hseen path List.mem_cons_self q hq (Path.same_iff.1 hsame)
    unfold violation?
    rw [if_neg (by simp [hnew]), if_neg (by simp [hfree path List.mem_cons_self])]
    refine violation?_of_free hrest (fun p hmem => hfree p (List.mem_cons_of_mem _ hmem)) ?_
    intro p hmem q hq
    rcases List.mem_cons.1 hq with rfl | hq
    · exact (hpath p hmem).symm
    · exact hseen p (List.mem_cons_of_mem _ hmem) q hq

/-- **The check of a batch** finds something exactly if its inputs clash. -/
theorem violation?_iff_clash (registry : Registry σ) (files : FileSystem) (paths : List Path) :
    (registry.violation? [] (Batch.resolved files paths)).isSome = true ↔
      Clash registry files paths := by
  have hresolved : ∀ {p a : Path},
      (files.canonical p).toOption = some a ↔ files.canonical p = .ok a := by
    intro p a
    cases files.canonical p <;> simp [Except.toOption]
  constructor
  · intro hv
    by_contra hclash
    have hapart : (Batch.resolved files paths).Pairwise fun a b => a.components ≠ b.components := by
      rw [Batch.resolved, List.pairwise_filterMap, List.pairwise_iff_forall_sublist]
      intro p q hpq a ha b hb hsame
      exact hclash (.twice hpq (hresolved.1 ha) (hresolved.1 hb) (Path.same_iff.2 hsame))
    have hfree : ∀ a ∈ Batch.resolved files paths, registry.isLoaded a = false := by
      intro a ha
      obtain ⟨p, hp, hpa⟩ := List.mem_filterMap.1 ha
      cases hl : registry.isLoaded a with
      | false => rfl
      | true => exact absurd (Clash.loaded hp (hresolved.1 hpa) hl) hclash
    rw [violation?_of_free hapart hfree (by simp)] at hv
    cases hv
  · intro hclash
    rw [← Option.ne_none_iff_isSome]
    intro hv
    obtain ⟨hapart, hfree, -⟩ := violation?_eq_none hv
    cases hclash with
    | twice hpq hp hq hsame =>
      rw [Batch.resolved, List.pairwise_filterMap, List.pairwise_iff_forall_sublist] at hapart
      exact hapart hpq _ (hresolved.2 hp) _ (hresolved.2 hq) (Path.same_iff.1 hsame)
    | loaded hp ha hl =>
      cases hl.symm.trans (hfree _ (List.mem_filterMap.2 ⟨_, hp, hresolved.2 ha⟩))

end Registry

namespace Runtime

variable {σ : Type} [Structure σ] {rt : Runtime σ} {env : Surroundings σ} {paths : List Path}

/-- How a fault of the scope's opening is returned. -/
def openingFault : Fault → Interruption
  | .panic text => .panic text
  | .failure message => .problem (.workFailed (.scopeNotOpened (.failure message)))

theorem load_of_violation {violation : Violation}
    (h : rt.registry.violation? [] (Batch.resolved env.files paths) = some violation) :
    rt.load env paths
      = (rt.record ((Batch.unresolved env.files paths).map (.reported · rt.registry.census)),
        .error (.problem (.violated violation))) := by
  rw [load_eq, h]

/-- Inputs that clash are refused. -/
theorem refused_of_clash (h : Clash rt.registry env.files paths) :
    ∃ violation, (rt.load env paths).2 = .error (.problem (.violated violation)) := by
  obtain ⟨violation, hv⟩ := Option.isSome_iff_exists.1
    ((rt.registry.violation?_iff_clash env.files paths).2 h)
  exact ⟨violation, by rw [load_of_violation hv]⟩

/-- A batch whose scope does not open ends there. -/
theorem load_of_unopened {fault : Fault}
    (hv : rt.registry.violation? [] (Batch.resolved env.files paths) = none)
    (ho : env.scope.opening (rt.useBefore env paths).opened = .error fault) :
    rt.load env paths = (rt.starting env paths, .error (openingFault fault)) := by
  have hopening : env.scope.opening (rt.constructed env paths).2.2.opened = .error fault := ho
  rw [load_of_admitted hv]
  simp only [finish, Scope.openOnce, hopening]
  cases fault <;> rfl

/-- A batch whose scope opens does not come back with a problem. -/
theorem load_of_opened (hv : rt.registry.violation? [] (Batch.resolved env.files paths) = none)
    (ho : env.scope.opening (rt.useBefore env paths).opened = .ok ()) (problem : Problem) :
    (rt.load env paths).2 ≠ .error (.problem problem) := by
  have hopening : env.scope.opening (rt.constructed env paths).2.2.opened = .ok () := ho
  rw [load_of_admitted hv]
  simp only [finish, Scope.openOnce, Scope.closeOnce, hopening]
  cases env.scope.closing (rt.constructed env paths).2.2.closed with
  | ok _ =>
    intro h
    cases h
  | error fault =>
    intro h
    cases fault <;> cases h

/-- Registry and router are the same, and nothing has been asked of the host. -/
structure Untouched (rt last : Runtime σ) : Prop extends Undisturbed rt last where
  registry : last.registry = rt.registry

/-- When a batch comes to nothing, and what that leaves. -/
structure Atomic (rt : Runtime σ) (env : Surroundings σ) (paths : List Path) : Prop where
  /-- A batch is refused exactly if its inputs clash. -/
  refused_iff : (∃ violation, (rt.load env paths).2 = .error (.problem (.violated violation))) ↔
    Clash rt.registry env.files paths
  /-- Nothing has happened then but reports of the inputs that lead nowhere, -/
  refused : Clash rt.registry env.files paths → (rt.load env paths).1
    = rt.record ((Batch.unresolved env.files paths).map (.reported · rt.registry.census))
  /-- and it matters only where the inputs lead: no file is read, nothing is constructed, and the
  scope is left alone. -/
  blind : Clash rt.registry env.files paths → ∀ other : Surroundings σ,
    (∀ p ∈ paths, other.files.canonical p = env.files.canonical p) →
    rt.load other paths = rt.load env paths
  /-- The work of a batch fails exactly if it is not refused and its scope fails to open, -/
  failed_iff : ∀ cause, (rt.load env paths).2 = .error (.problem (.workFailed cause)) ↔
    ¬Clash rt.registry env.files paths ∧ ∃ message, cause = .scopeNotOpened (.failure message) ∧
      env.scope.opening (rt.useBefore env paths).opened = .error (.failure message)
  /-- and whether the opening fails or panics, no structure has been called then. -/
  uncalled : ¬Clash rt.registry env.files paths → ∀ fault,
    env.scope.opening (rt.useBefore env paths).opened = .error fault →
    (rt.load env paths).2 = .error (openingFault fault) ∧
      Occurrence.calls (rt.load env paths).1.trace = Occurrence.calls rt.trace
  /-- In all of these cases everything else is as before. -/
  untouched : Clash rt.registry env.files paths ∨
    (∃ fault, env.scope.opening (rt.useBefore env paths).opened = .error fault) →
    Untouched rt (rt.load env paths).1

/-- Where the inputs lead decides what is resolved and what is reported. -/
theorem resolved_congr {files other : FileSystem}
    (h : ∀ p ∈ paths, other.canonical p = files.canonical p) :
    Batch.resolved other paths = Batch.resolved files paths ∧
      Batch.unresolved other paths = Batch.unresolved files paths := by
  constructor
  · exact List.filterMap_congr fun p hp => by rw [h p hp]
  · exact List.flatMap_congr fun p hp => by rw [h p hp]

/-- A batch with a violation ends at once. -/
theorem atomic_of_violation {violation : Violation}
    (hv : rt.registry.violation? [] (Batch.resolved env.files paths) = some violation) :
    Atomic rt env paths := by
  have hload := load_of_violation hv
  have hc : Clash rt.registry env.files paths :=
    (rt.registry.violation?_iff_clash env.files paths).1 (by rw [hv]; rfl)
  constructor
  case refused_iff => exact ⟨fun _ => hc, fun _ => ⟨violation, by rw [hload]⟩⟩
  case refused => exact fun _ => by rw [hload]
  case blind =>
    intro _ other hother
    obtain ⟨hresolved, hunresolved⟩ := resolved_congr hother
    have hv' : rt.registry.violation? [] (Batch.resolved other.files paths) = some violation := by
      rw [hresolved, hv]
    rw [hload, load_of_violation hv', hunresolved]
  case failed_iff =>
    intro cause
    rw [hload]
    exact ⟨nofun, fun h => absurd hc h.1⟩
  case uncalled => exact fun h => absurd hc h
  case untouched =>
    intro _
    rw [hload]
    exact ⟨undisturbed_reports rt _ _, rfl⟩

/-- A batch without one comes to nothing only if its scope does not open, and gets as far as
`starting` then. -/
theorem atomic_of_admitted
    (hv : rt.registry.violation? [] (Batch.resolved env.files paths) = none) :
    Atomic rt env paths := by
  have hc : ¬Clash rt.registry env.files paths := by
    rw [← rt.registry.violation?_iff_clash, hv]
    nofun
  have hunopened : ∀ {fault}, env.scope.opening (rt.useBefore env paths).opened = .error fault →
      rt.load env paths = (rt.starting env paths, .error (openingFault fault)) :=
    fun ho => load_of_unopened hv ho
  constructor
  case refused_iff =>
    refine ⟨?_, fun h => absurd h hc⟩
    rintro ⟨violation, hl⟩
    cases ho : env.scope.opening (rt.useBefore env paths).opened with
    | ok _ => exact absurd hl (load_of_opened hv ho _)
    | error fault =>
      rw [hunopened ho] at hl
      cases fault <;> cases hl
  case refused => exact fun h => absurd h hc
  case blind => exact fun h => absurd h hc
  case failed_iff =>
    intro cause
    constructor
    · intro hl
      cases ho : env.scope.opening (rt.useBefore env paths).opened with
      | ok _ => exact absurd hl (load_of_opened hv ho _)
      | error fault =>
        rw [hunopened ho] at hl
        cases fault with
        | panic text => cases hl
        | failure message =>
          cases hl
          exact ⟨hc, message, rfl, rfl⟩
    · rintro ⟨-, message, rfl, ho⟩
      rw [hunopened ho]
      rfl
  case uncalled =>
    intro _ fault ho
    obtain ⟨built, -, hprepared⟩ := exists_prepared rt env paths
    rw [hunopened ho]
    exact ⟨rfl, hprepared.calls⟩
  case untouched =>
    rintro (h | ⟨fault, ho⟩)
    · exact absurd h hc
    · rw [hunopened ho]
      exact ⟨undisturbed_starting rt env paths, registry_starting rt env paths⟩

/-- **A batch that comes to nothing changes nothing**, in any state of a loader. -/
theorem load_atomic (rt : Runtime σ) (env : Surroundings σ) (paths : List Path) :
    Atomic rt env paths := by
  cases hv : rt.registry.violation? [] (Batch.resolved env.files paths) with
  | some violation => exact atomic_of_violation hv
  | none => exact atomic_of_admitted hv

end Runtime

end EventScripts
