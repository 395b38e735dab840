import EventScripts.Proofs.Loader.Activation
import EventScripts.Proofs.Loader.Batch
/-!
# How a batch ends

A batch that is refused, or whose scope does not open, ends before anything of
it is activated. A scope whose closing panics ends it after the activation;
otherwise the scripts are entered. `load_cases` says so of `load`, with what is
known of the runtime at each of these ends.
-/

namespace EventScripts

namespace Batch

/-- What is reported of the closing of the scope around an activation. -/
def closingReports : Except Fault Unit → List Problem
  | .ok () => []
  | .error fault => [.workFailed (.scopeNotClosed fault)]

/-! ## Paths -/

theorem map_filterMap_sublist {α β : Type} {f : α → Option β} {g : β → α}
    (h : ∀ a b, f a = some b → g b = a) : ∀ as : List α, ((as.filterMap f).map g).Sublist as
  | [] => List.Sublist.slnil
  | a :: as => by
    rw [List.filterMap_cons]
    split
    · exact (map_filterMap_sublist h as).cons a
    · next b hb =>
      rw [List.map_cons, h a b hb]
      exact (map_filterMap_sublist h as).cons_cons a

theorem path_of_readTree {files : FileSystem} {path : Path} {tree : Tree}
    (h : (Runtime.readTree files path).2 = .ok tree) : tree.path = path := by
  unfold Runtime.readTree at h
  split at h
  · cases h
  · simp only at h
    cases hn : (Source.parse path _).2 with
    | error e =>
      rw [hn] at h
      cases h
    | ok nodes =>
      rw [hn] at h
      cases h
      rfl

theorem paths_trees_sublist (files : FileSystem) (paths : List Path) :
    ((trees files paths).map (·.path)).Sublist paths :=
  map_filterMap_sublist (fun path tree h => by
    cases hr : (Runtime.readTree files path).2 with
    | error e =>
      rw [hr] at h
      cases h
    | ok t =>
      rw [hr] at h
      cases h
      exact path_of_readTree hr) paths

variable {σ : Type}

theorem paths_scripts_sublist : ∀ built : List (Built σ),
    ((built.filterMap Built.script?).map (·.path)).Sublist (built.map (·.tree.path))
  | [] => List.Sublist.slnil
  | b :: built => by
    rw [List.filterMap_cons, List.map_cons]
    split
    · exact (paths_scripts_sublist built).cons _
    · next script hs =>
      have hpath : script.path = b.tree.path := by
        unfold Built.script? at hs
        split at hs
        · cases hs
          rfl
        · cases hs
      rw [List.map_cons, hpath]
      exact (paths_scripts_sublist built).cons_cons _

end Batch

namespace Runtime

variable {σ : Type}

/-- What is known when the activation of a batch begins: what has been constructed, and that
nothing has happened yet but reports, of what could not be resolved, read or compiled. -/
structure Prepared (rt : Runtime σ) (env : Surroundings σ) (paths : List Path)
    (built : List (Built σ)) (start : Runtime σ) : Prop where
  files : built.map (fun b => (b.tree, b.blocks)) = Construct.compiled env.grammar
    rt.router.catalog rt.issued (Batch.trees env.files (Batch.resolved env.files paths))
  /-- That is every file that has been read, in the order of the batch. -/
  trees : built.map (·.tree) = Batch.trees env.files (Batch.resolved env.files paths)
  /-- Of each file every block is compiled, by itself and in the order of the file. -/
  blocks : ∀ b ∈ built, b.blocks.map (·.1) = b.tree.nodes ∧ ∀ block ∈ b.blocks,
    ∃ id, block.2 = env.grammar.compile rt.router.catalog b.tree.path id block.1
  router : start.router = rt.router
  registry : start.registry = rt.registry
  calls : Occurrence.calls start.trace = Occurrence.calls rt.trace
  problems : (Occurrence.problems start.trace).Perm (Occurrence.problems rt.trace
    ++ Batch.unresolved env.files paths
    ++ (Batch.resolved env.files paths).flatMap (Batch.readReports env.files)
    ++ built.flatMap Built.reports)

/-- The scripts that a batch is about to activate are files that its inputs have led to. -/
theorem Prepared.sublist {rt start : Runtime σ} {env : Surroundings σ} {paths : List Path}
    {built : List (Built σ)} (h : Prepared rt env paths built start) :
    ((built.filterMap Built.script?).map (·.path)).Sublist (Batch.resolved env.files paths) := by
  have htrees : built.map (·.tree.path)
      = (Batch.trees env.files (Batch.resolved env.files paths)).map (·.path) := by
    rw [← h.trees, List.map_map]
    rfl
  exact (Batch.paths_scripts_sublist built).trans
    (htrees ▸ Batch.paths_trees_sublist env.files (Batch.resolved env.files paths))

/-- They differ in their paths, and none is loaded. -/
theorem Prepared.paths {rt start : Runtime σ} {env : Surroundings σ} {paths : List Path}
    {built : List (Built σ)} (h : Prepared rt env paths built start)
    (hv : rt.registry.violation? [] (Batch.resolved env.files paths) = none) :
    Registry.Apart (built.filterMap Built.script?) ∧
      ∀ s ∈ built.filterMap Built.script?, rt.registry.isLoaded s.path = false := by
  obtain ⟨hapart, hfree, -⟩ := Registry.violation?_eq_none hv
  exact ⟨Registry.apart_iff.2 (hapart.sublist h.sublist),
    fun s hs => hfree _ (h.sublist.subset (List.mem_map_of_mem hs))⟩

/-- The runtime when the files of a batch have been read. -/
def afterReading (rt : Runtime σ) (files : FileSystem) (paths : List Path) : Runtime σ :=
  ((rt.record ((Batch.unresolved files paths).map (.reported · rt.registry.census))).record
    (((Batch.resolved files paths).flatMap (Batch.readReports files)).map
      (.reported · rt.registry.census))).record
    [.batchStarted (Batch.trees files (Batch.resolved files paths)).length]

/-- The works of constructing the scripts of a batch. -/
def works (rt : Runtime σ) (env : Surroundings σ) (paths : List Path) : List (Work (Script σ)) :=
  (Construct.scripts env.grammar rt.router.catalog rt.registry.census rt.issued
    (Batch.trees env.files (Batch.resolved env.files paths))).1

/-- A batch when it has been constructed: the runtime, the scripts, and the use of the scope. -/
def constructed (rt : Runtime σ) (env : Surroundings σ) (paths : List Path) :
    Runtime σ × List (Script σ) × ScopeUse :=
  (rt.afterReading env.files paths).construct env
    (Batch.trees env.files (Batch.resolved env.files paths))

theorem shows_afterReading (rt : Runtime σ) (files : FileSystem) (paths : List Path) :
    Shows rt (rt.afterReading files paths) [] (Batch.unresolved files paths
      ++ (Batch.resolved files paths).flatMap (Batch.readReports files)) :=
  ((shows_reports rt _ _).trans (shows_reports _ _ _)).silent (shows_record _ [.batchStarted _])

/-- What is constructed is prepared for activation. -/
theorem prepared_of_construct (rt : Runtime σ) {env : Surroundings σ} {paths : List Path}
    {built : List (Built σ)} (issued : Nat) {os : List Occurrence}
    (hfiles : built.map (fun b => (b.tree, b.blocks)) = Construct.compiled env.grammar
      rt.router.catalog rt.issued (Batch.trees env.files (Batch.resolved env.files paths)))
    (hcalls : Occurrence.calls os = [])
    (hproblems : (Occurrence.problems os).Perm (built.flatMap Built.reports)) :
    Prepared rt env paths built (({ rt.afterReading env.files paths with issued }.record os).record
      [.activating, .scopeOpened]) := by
  have hbuilt : Shows (rt.afterReading env.files paths)
      (({ rt.afterReading env.files paths with issued }.record os).record
        [.activating, .scopeOpened]) [] (Occurrence.problems os) := by
    have h : Shows (rt.afterReading env.files paths)
        ({ rt.afterReading env.files paths with issued }.record os)
        (Occurrence.calls os) (Occurrence.problems os) := shows_of_trace rfl
    rw [hcalls] at h
    exact h.silent (shows_record _ [.activating, .scopeOpened])
  have hall := (shows_afterReading rt env.files paths).trans hbuilt
  constructor
  case files => exact hfiles
  case trees =>
    rw [← Construct.map_tree_compiled env.grammar rt.router.catalog rt.issued
      (Batch.trees env.files (Batch.resolved env.files paths)), ← hfiles, List.map_map]
    rfl
  case blocks =>
    intro b hb
    exact Construct.compiled_blocks env.grammar rt.router.catalog (b.tree, b.blocks)
      (hfiles ▸ List.mem_map_of_mem hb)
  case router => rfl
  case registry => rfl
  case calls => simpa using hall.calls
  case problems =>
    rw [hall.problems]
    simp only [List.append_assoc]
    exact ((hproblems.append_left _).append_left _).append_left _

variable [Structure σ]

/-- The batch has been entered: the scripts as far as their paths were free, and the others have
been reported. -/
structure Completed (activated : Runtime σ) (scripts : List (Script σ)) (last : Runtime σ) :
    Prop where
  registry : last.registry = activated.registry.enterEach scripts
  router : last.router = activated.router
  shows : ∃ closed, Shows activated last []
    (Batch.closingReports closed ++ refused activated.registry scripts)

/-- The ends of an activation that has begun: the scope does not open, its closing panics, or the
scripts are entered. -/
theorem finish_cases (rt : Runtime σ) (scope : Scope) (scripts : List (Script σ)) (use : ScopeUse)
    (ha : Registry.Apart scripts) :
    (∃ e, rt.finish scope scripts use = (rt.record [.activating, .scopeOpened], .error e)) ∨
      (∃ text count, scope.closing count = .error (.panic text) ∧ rt.finish scope scripts use
        = (((rt.record [.activating, .scopeOpened]).activate scripts).1.record [.scopeClosed],
          .error (.panic text))) ∨
      ∃ tally, (rt.finish scope scripts use).2 = .ok tally ∧
        Completed ((rt.record [.activating, .scopeOpened]).activate scripts).1
          ((rt.record [.activating, .scopeOpened]).activate scripts).2
          (rt.finish scope scripts use).1 := by
  simp only [finish, Scope.openOnce, Scope.closeOnce]
  generalize rt.record [.activating, .scopeOpened] = begun
  obtain ⟨pre, load, post, hact⟩ := exists_activation begun scripts
  have hkept := hact.apart ha
  have henter : ∀ (os : List Occurrence) (closed : Except Fault Unit), Occurrence.calls os = [] →
      Occurrence.problems os = Batch.closingReports closed →
      Completed (begun.activate scripts).1 (begun.activate scripts).2
        ((((begun.activate scripts).1.record os).enterAll (begun.activate scripts).2).1.record
          [.batchLoaded (((begun.activate scripts).1.record os).enterAll
            (begun.activate scripts).2).2]) := by
    intro os closed hc hp
    obtain ⟨hregistry, hrouter, hshows⟩ := enterAll_spec (begun.activate scripts).2
      ((begun.activate scripts).1.record os) hkept
    have hclosed := shows_record (begun.activate scripts).1 os
    rw [hc, hp] at hclosed
    exact ⟨hregistry, hrouter, closed,
      (hclosed.trans hshows).silent (shows_record _ [.batchLoaded _])⟩
  cases scope.opening use.opened with
  | error fault => cases fault <;> exact Or.inl ⟨_, rfl⟩
  | ok _ =>
    refine Or.inr ?_
    simp only
    cases hclosing : scope.closing use.closed with
    | ok _ => exact Or.inr ⟨_, rfl, henter [.scopeClosed] (.ok ()) rfl rfl⟩
    | error fault =>
      cases fault with
      | panic text => exact Or.inl ⟨text, _, hclosing, rfl⟩
      | failure message =>
        refine Or.inr ⟨_, rfl, ?_⟩
        simp only [report, record_record]
        exact henter _ (.error (.failure message)) rfl rfl

/-- A batch is refused, or it is read, constructed and finished. -/
theorem load_eq (rt : Runtime σ) (env : Surroundings σ) (paths : List Path) :
    rt.load env paths =
      match rt.registry.violation? [] (Batch.resolved env.files paths) with
      | some violation =>
        (rt.record ((Batch.unresolved env.files paths).map (.reported · rt.registry.census)),
          .error (.problem (.violated violation)))
      | none =>
        let (rt, scripts, use) := (rt.afterReading env.files paths).construct env
          (Batch.trees env.files (Batch.resolved env.files paths))
        rt.finish env.scope scripts use := by
  unfold load
  rw [resolveAll_eq]
  simp only [readAll_eq]
  rfl

/-- The use of the scope by the time a batch has been constructed. -/
def useBefore (rt : Runtime σ) (env : Surroundings σ) (paths : List Path) : ScopeUse :=
  ((rt.afterReading env.files paths).construct env
    (Batch.trees env.files (Batch.resolved env.files paths))).2.2

/-- Nothing speaks against the batch, and the scope around its activation opens and closes; the
closing may fail, but does not panic. -/
structure Runs (rt : Runtime σ) (env : Surroundings σ) (paths : List Path) : Prop where
  admitted : rt.registry.violation? [] (Batch.resolved env.files paths) = none
  opens : env.scope.opening (rt.useBefore env paths).opened = .ok ()
  closes : ∀ text, env.scope.closing (rt.useBefore env paths).closed ≠ .error (.panic text)

theorem finish_ok_iff (rt : Runtime σ) (scope : Scope) (scripts : List (Script σ))
    (use : ScopeUse) : (∃ tally, (rt.finish scope scripts use).2 = .ok tally) ↔
      scope.opening use.opened = .ok () ∧
        ∀ text, scope.closing use.closed ≠ .error (.panic text) := by
  simp only [finish, Scope.openOnce, Scope.closeOnce]
  cases scope.opening use.opened with
  | error fault => cases fault <;> simp
  | ok _ =>
    simp only
    cases scope.closing use.closed with
    | ok _ => simp
    | error fault => cases fault <;> simp

/-- A batch is loaded exactly if it runs. -/
theorem load_ok_iff (rt : Runtime σ) (env : Surroundings σ) (paths : List Path) :
    (∃ tally, (rt.load env paths).2 = .ok tally) ↔ rt.Runs env paths := by
  rw [load_eq]
  cases hv : rt.registry.violation? [] (Batch.resolved env.files paths) with
  | some violation =>
    constructor
    · rintro ⟨tally, h⟩
      cases h
    · rintro ⟨h, -, -⟩
      cases hv.symm.trans h
  | none =>
    exact (finish_ok_iff _ _ _ _).trans
      ⟨fun ⟨ho, hc⟩ => ⟨hv, ho, hc⟩, fun h => ⟨h.opens, h.closes⟩⟩

/-- **The ends of a batch**: it is refused, or prepared and then activated as far as its scope
allows. -/
theorem load_cases (rt : Runtime σ) (env : Surroundings σ) (paths : List Path) :
    (∃ violation, rt.load env paths
      = (rt.record ((Batch.unresolved env.files paths).map (.reported · rt.registry.census)),
        .error (.problem (.violated violation)))) ∨
    ∃ built start, Prepared rt env paths built start ∧
      Registry.Apart (built.filterMap Built.script?) ∧
      (∀ s ∈ built.filterMap Built.script?, rt.registry.isLoaded s.path = false) ∧
      ((∃ e, rt.load env paths = (start, .error e)) ∨
      (∃ text count, env.scope.closing count = .error (.panic text) ∧ rt.load env paths
        = ((start.activate (built.filterMap Built.script?)).1.record [.scopeClosed],
          .error (.panic text))) ∨
      ∃ tally, (rt.load env paths).2 = .ok tally ∧
        Completed (start.activate (built.filterMap Built.script?)).1
          (start.activate (built.filterMap Built.script?)).2 (rt.load env paths).1) := by
  rw [load_eq]
  cases hv : rt.registry.violation? [] (Batch.resolved env.files paths) with
  | some violation => exact Or.inl ⟨violation, rfl⟩
  | none =>
    refine Or.inr ?_
    obtain ⟨built, issued, os, use, hconstruct, hfiles, hcalls, hproblems⟩ :=
      construct_eq (rt.afterReading env.files paths) env
        (Batch.trees env.files (Batch.resolved env.files paths))
    have hprepared := prepared_of_construct rt issued hfiles hcalls hproblems
    obtain ⟨hapart, hfree⟩ := hprepared.paths hv
    rw [hconstruct]
    exact ⟨built, _, hprepared, hapart, hfree, finish_cases _ env.scope _ use hapart⟩

end Runtime

end EventScripts
