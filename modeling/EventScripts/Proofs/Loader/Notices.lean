import EventScripts.Proofs.Loader.Agreement
import EventScripts.Proofs.Loader.RoundTrip
/-!
# What observers are told

An observer is told of every script that has been loaded and of every script
that has been unloaded. Structures that keep out of the registry cannot cause
such a notice, and neither can reading or constructing; a batch that is entered
comes with one for each of its scripts (`noted_load`), and unloading with one for
each script that was taken out (`noted_unloadScripts`).
-/

namespace EventScripts

namespace Occurrence

/-- An observer is told that a script has been loaded or unloaded. -/
def isNotice : Occurrence → Bool
  | scriptLoaded _ _ | scriptUnloaded _ => true
  | _ => false

/-- What observers are told, among occurrences. -/
def notices (os : List Occurrence) : List Occurrence := os.filter isNotice

theorem notices_append (os more : List Occurrence) :
    notices (os ++ more) = notices os ++ notices more := List.filter_append ..

theorem notices_map {α : Type} {f : α → Occurrence} (h : ∀ a, (f a).isNotice = false)
    (as : List α) : notices (as.map f) = [] := by
  refine List.filter_eq_nil_iff.2 fun o ho => ?_
  obtain ⟨a, -, rfl⟩ := List.mem_map.1 ho
  simp [h a]

end Occurrence

namespace Runtime

variable {σ : Type} {rt mid last : Runtime σ}

/-- From one runtime to another, observers are told something. -/
def Noted (rt last : Runtime σ) (notices : List Occurrence) : Prop :=
  ∃ os, last.trace = rt.trace ++ os ∧ Occurrence.notices os = notices

/-- From one runtime to another, observers are told nothing, and there is nothing to tell. -/
structure Quiet (rt last : Runtime σ) : Prop where
  noted : Noted rt last []
  loaded : last.registry.loaded = rt.registry.loaded

theorem Noted.trans {notices more : List Occurrence} (h : Noted rt mid notices)
    (h' : Noted mid last more) : Noted rt last (notices ++ more) := by
  obtain ⟨os, htrace, hos⟩ := h
  obtain ⟨os', htrace', hos'⟩ := h'
  refine ⟨os ++ os', by rw [htrace', htrace, List.append_assoc], ?_⟩
  rw [Occurrence.notices_append, hos, hos']

theorem Noted.silent {notices : List Occurrence} (h : Noted rt mid notices)
    (h' : Noted mid last []) : Noted rt last notices := by
  simpa only [List.append_nil] using h.trans h'

theorem noted_record (rt : Runtime σ) (os : List Occurrence) :
    Noted rt (rt.record os) (Occurrence.notices os) := ⟨os, rfl, rfl⟩

theorem Quiet.refl (rt : Runtime σ) : Quiet rt rt := ⟨⟨[], (List.append_nil _).symm, rfl⟩, rfl⟩

theorem Quiet.trans (h : Quiet rt mid) (h' : Quiet mid last) : Quiet rt last :=
  ⟨h.noted.trans h'.noted, h'.loaded.trans h.loaded⟩

theorem quiet_record (rt : Runtime σ) {os : List Occurrence} (h : Occurrence.notices os = []) :
    Quiet rt (rt.record os) := ⟨⟨os, rfl, h⟩, rfl⟩

theorem quiet_report (rt : Runtime σ) (problem : Problem) : Quiet rt (rt.report problem) :=
  quiet_record rt rfl

/-- What is recorded with a change of the router is quiet. -/
theorem quiet_router (rt : Runtime σ) (router : Router) {os : List Occurrence}
    (h : Occurrence.notices os = []) : Quiet rt ({ rt with router }.record os) :=
  ⟨⟨os, rfl, h⟩, rfl⟩

theorem notices_host {calls : List HostCall} {os : List Occurrence}
    (h : Occurrence.notices os = []) :
    Occurrence.notices (calls.map Occurrence.host ++ os) = [] := by
  rw [Occurrence.notices_append, Occurrence.notices_map fun _ => rfl, h, List.nil_append]

theorem quiet_bind (rt : Runtime σ) (trigger : Trigger) : Quiet rt (rt.bind trigger).1 := by
  unfold bind
  split
  · exact .refl rt
  · exact quiet_router rt _ (notices_host rfl)

theorem quiet_release (rt : Runtime σ) (id : TriggerId) : Quiet rt (rt.release id).1 := by
  refine quiet_router rt _ (notices_host ?_)
  split <;> rfl

theorem quiet_perform : ∀ (action : Action σ) (rt : Runtime σ), action.Aloof →
    Quiet rt (rt.perform action).1
  | .finish _ _, rt, _ => .refl rt
  | .bind t next, rt, h =>
    (quiet_bind rt t).trans (quiet_perform (next (rt.bind t).2) (rt.bind t).1 (h _))
  | .release id next, rt, h =>
    (quiet_release rt id).trans (quiet_perform (next (rt.release id).2) (rt.release id).1 (h _))
  | .look next, rt, h => quiet_perform (next rt.router) rt (h _)
  | .remark remark next, rt, h =>
    (quiet_record rt rfl).trans (quiet_perform next (rt.record [.remarked remark]) h)

/-! ## Reading -/

theorem notices_reports (census : Census) (problems : List Problem) :
    Occurrence.notices (problems.map (Occurrence.reported · census)) = [] :=
  Occurrence.notices_map (fun _ => rfl) problems

/-- The work of constructing a script is quiet, whatever its fate. -/
theorem notices_story (fate : Fate) (census other : Census) (path : Path)
    (blocks : List (Node × Compiled σ)) :
    Occurrence.notices (fate.story census (Construct.script path other blocks)) = [] := by
  obtain ⟨opening, closing⟩ := fate
  cases opening with
  | error fault => rfl
  | ok _ =>
    have hwork : Occurrence.notices (Construct.script path other blocks).occurrences = [] := by
      simp only [Construct.script]
      rw [Occurrence.notices_append, notices_reports]
      rfl
    simp only [Fate.story, List.cons_append]
    rw [show Occurrence.notices (.scopeOpened :: _) = _ from List.filter_cons_of_neg (by decide),
      ← Occurrence.notices, Occurrence.notices_append, hwork]
    cases closing with
    | ok _ => rfl
    | error fault => rfl

theorem notices_executions (census : Census) (executions : List Execution) :
    Occurrence.notices (executions.flatMap (Execution.occurrences census)) = [] := by
  rw [Occurrence.notices, List.filter_flatMap, List.flatMap_eq_nil_iff]
  intro execution _
  rw [← Occurrence.notices, Execution.occurrences, Occurrence.notices_append]
  cases execution.problem? with
  | none => exact (List.append_nil _).trans (Occurrence.notices_map (fun _ => rfl) _)
  | some problem => exact congrArg (· ++ []) (Occurrence.notices_map (fun _ => rfl) _)

theorem quiet_afterReading (rt : Runtime σ) (files : FileSystem) (paths : List Path) :
    Quiet rt (rt.afterReading files paths) :=
  ((quiet_record rt (notices_reports _ _)).trans (quiet_record _ (notices_reports _ _))).trans
    (quiet_record _ rfl)

/-! ## Entering a batch -/

/-- What observers are told of a script that has been loaded. -/
def loadedNotice (script : Script σ) : Occurrence :=
  .scriptLoaded script.path script.structures.length

/-- Observers are told of each script that is entered. -/
theorem noted_enterAll : ∀ {scripts : List (Script σ)} {rt : Runtime σ}, Registry.Apart scripts →
    (∀ s ∈ scripts, rt.registry.isLoaded s.path = false) →
    Noted rt (rt.enterAll scripts).1 (scripts.map loadedNotice)
  | [], _, _, _ => (Quiet.refl _).noted
  | script :: rest, rt, ha, hfree => by
    obtain ⟨hapart, hrest⟩ := List.pairwise_cons.1 ha
    have hi := Registry.insert_of_not_loaded (hfree script List.mem_cons_self)
    have hfree' : ∀ s ∈ rest, Registry.isLoaded _ s.path = false := fun s hs =>
      (Registry.isLoaded_of_insert hi (hapart s hs)).trans (hfree s (List.mem_cons_of_mem _ hs))
    unfold enterAll enter
    rw [hi]
    generalize { loaded := _, disabled := _ : Registry σ } = registry at hfree'
    have hentered : Noted rt (({ rt with registry }.record [.entered script.path]).record
        [.scriptLoaded script.path script.structures.length]) [loadedNotice script] :=
      ⟨_, List.append_assoc .., rfl⟩
    exact hentered.trans (noted_enterAll hrest hfree')

/-- What a batch comes to, as far as observers and the registry are concerned. -/
inductive BatchEnd (rt last : Runtime σ) : Except Interruption Tally → Prop where
  | nothing (e : Interruption) (h : Quiet rt last) : BatchEnd rt last (.error e)
  | entered (scripts : List (Script σ)) (ha : Registry.Apart scripts)
      (hfree : ∀ s ∈ scripts, rt.registry.isLoaded s.path = false)
      (hloaded : last.registry.loaded.Perm (scripts ++ rt.registry.loaded))
      (hnoted : Noted rt last (scripts.map loadedNotice)) :
      BatchEnd rt last (.ok (Tally.sum (scripts.map Script.tally)))

theorem isLoaded_of_quiet {path : Path} (h : Quiet rt mid) :
    mid.registry.isLoaded path = rt.registry.isLoaded path := by
  unfold Registry.isLoaded Registry.script?
  rw [h.loaded]

theorem BatchEnd.of_quiet {result : Except Interruption Tally} (h : Quiet rt mid)
    (he : BatchEnd mid last result) : BatchEnd rt last result := by
  cases he with
  | nothing e hq => exact .nothing e (h.trans hq)
  | entered scripts ha hfree hloaded hnoted =>
    refine .entered scripts ha (fun s hs => (isLoaded_of_quiet h).symm.trans (hfree s hs)) ?_ ?_
    · rw [← h.loaded]
      exact hloaded
    · exact h.noted.trans hnoted

theorem BatchEnd.then_quiet {result : Except Interruption Tally} (he : BatchEnd rt mid result)
    (h : Quiet mid last) : BatchEnd rt last result := by
  cases he with
  | nothing e hq => exact .nothing e (hq.trans h)
  | entered scripts ha hfree hloaded hnoted =>
    exact .entered scripts ha hfree (h.loaded ▸ hloaded) (hnoted.silent h.noted)

theorem batchEnd_enterAll {scripts : List (Script σ)} (ha : Registry.Apart scripts)
    (hfree : ∀ s ∈ scripts, rt.registry.isLoaded s.path = false) :
    BatchEnd rt (rt.enterAll scripts).1 (.ok (rt.enterAll scripts).2) := by
  rw [tally_enterAll ha hfree]
  refine .entered scripts ha hfree ?_ (noted_enterAll ha hfree)
  rw [(enterAll_spec scripts rt ha).1]
  refine Registry.loaded_enterEach_of_free ha fun p hp => ?_
  obtain ⟨s, hs, rfl⟩ := List.mem_map.1 hp
  exact hfree s hs

/-! ## Scanning -/

/-- Observers are not told of a search. -/
theorem notices_ofSearch {os : List Occurrence} (hos : ∀ o ∈ os, o.ofSearch = true) :
    Occurrence.notices os = [] := by
  refine List.filter_eq_nil_iff.2 fun o ho => ?_
  have hsearch := hos o ho
  cases o <;> first | exact Bool.false_ne_true | cases hsearch

theorem quiet_markDisabled (rt : Runtime σ) (path : Path) : Quiet rt (rt.markDisabled path).1 := by
  obtain ⟨os, hos, hmarked⟩ := exists_markDisabled rt path
  rw [hmarked]
  exact ⟨⟨os, rfl, notices_ofSearch hos⟩, Registry.loaded_markDisabled rt.registry path⟩

theorem quiet_scan (rt : Runtime σ) (files : FileSystem) (root : Path) :
    Quiet rt (rt.scan files root).1 := by
  obtain ⟨os, hos, hscan⟩ := exists_scan rt files root
  rw [hscan]
  exact ⟨⟨os, rfl, notices_ofSearch hos⟩, Registry.loaded_rescan rt.registry files root⟩

/-! ## Calls -/

variable [Structure σ]

theorem quiet_call (ha : KeepsAloof σ) (c : Call σ) : Quiet c.before c.after := by
  have hacted : Quiet c.before c.acted.1 :=
    (quiet_record c.before rfl).trans (quiet_perform _ c.begun (ha _ _ _))
  unfold Call.after
  rcases c.outcome_cases with ⟨-, houtcome⟩ | ⟨-, houtcome⟩
  · rw [houtcome]
    exact hacted
  · rw [houtcome]
    exact hacted.trans (quiet_report _ _)

theorem quiet_linked (ha : KeepsAloof σ) : ∀ {calls : List (Call σ)} {rt last : Runtime σ},
    Call.Linked rt calls last → Quiet rt last
  | [], rt, _, h => by
    rw [show rt = _ from h]
    exact .refl _
  | c :: _, _, _, ⟨hb, h⟩ => hb ▸ (quiet_call ha c).trans (quiet_linked ha h)

theorem quiet_activate (ha : KeepsAloof σ) (rt : Runtime σ) (scripts : List (Script σ)) :
    Quiet rt (rt.activate scripts).1 := by
  obtain ⟨pre, load, post, hact⟩ := exists_activation rt scripts
  exact quiet_linked ha hact.linked

theorem quiet_unloadPass (ha : KeepsAloof σ) (scripts : List (Script σ)) (rt : Runtime σ) :
    Quiet rt (rt.unloadPass scripts).1 :=
  unloadPass_induction (P := Quiet rt)
    (fun path self mid h => h.trans (quiet_call ha ⟨.unload, ⟨0, 0, path, self⟩, mid⟩))
    scripts (.refl rt)

theorem quiet_postUnloadPass (ha : KeepsAloof σ) (scripts : List (Script σ)) (rt : Runtime σ) :
    Quiet rt (rt.postUnloadPass scripts) :=
  postUnloadPass_induction (P := Quiet rt) (fun mid _ h => h.trans (quiet_record mid rfl))
    (fun path self mid h => h.trans (quiet_call ha ⟨.postUnload, ⟨0, 0, path, self⟩, mid⟩))
    scripts (.refl rt)

/-! ## Constructing and loading -/

omit [Structure σ] in
theorem quiet_construct (rt : Runtime σ) (env : Surroundings σ) (trees : List Tree) :
    Quiet rt (rt.construct env trees).1 := by
  obtain ⟨fates, hworks, -, hseen⟩ := Task.runAll_eq env.scope
    rt.registry.census (if rt.workers = 0 then [] else env.schedule)
    (Construct.scripts env.grammar rt.router.catalog rt.registry.census rt.issued trees).1 {}
  rw [Construct.scripts_eq] at hworks
  obtain ⟨built, -, rfl⟩ := Construct.exists_built _ _ _ hworks
  have hnone : Occurrence.notices (Task.runAll env.scope rt.registry.census
      (if rt.workers = 0 then [] else env.schedule)
      (Construct.scripts env.grammar rt.router.catalog rt.registry.census rt.issued trees).1
      {}).2.2 = [] := by
    refine List.Perm.eq_nil ((hseen.filter Occurrence.isNotice).trans (.of_eq ?_))
    rw [List.flatMap_map, List.filter_flatMap, List.flatMap_eq_nil_iff]
    exact fun b _ => notices_story b.fate _ _ b.tree.path b.blocks
  exact ⟨⟨_, rfl, (List.filter_cons_of_neg Bool.false_ne_true).trans hnone⟩, rfl⟩

theorem batchEnd_finish (hk : KeepsAloof σ) (rt : Runtime σ) (scope : Scope)
    (scripts : List (Script σ)) (use : ScopeUse) (ha : Registry.Apart scripts)
    (hfree : ∀ s ∈ scripts, rt.registry.isLoaded s.path = false) :
    BatchEnd rt (rt.finish scope scripts use).1 (rt.finish scope scripts use).2 := by
  have hbegun : Quiet rt (rt.record [.activating, .scopeOpened]) := quiet_record rt rfl
  simp only [finish, Scope.openOnce, Scope.closeOnce]
  generalize rt.record [.activating, .scopeOpened] = begun at hbegun
  have hactivated := hbegun.trans (quiet_activate hk begun scripts)
  obtain ⟨pre, load, post, hact⟩ := exists_activation begun scripts
  have hapart := hact.apart ha
  have hkept : ∀ s ∈ (begun.activate scripts).2, rt.registry.isLoaded s.path = false := by
    intro s hs
    have hp : s.path ∈ scripts.map (·.path) := hact.paths ▸ List.mem_map_of_mem hs
    obtain ⟨s', hs', he⟩ := List.mem_map.1 hp
    exact he ▸ hfree s' hs'
  -- the scripts are entered, after whatever was recorded of the closing
  have hend : ∀ mid : Runtime σ, Quiet rt mid → ∀ os, Occurrence.notices os = [] →
      BatchEnd rt ((mid.enterAll (begun.activate scripts).2).1.record os)
        (.ok (mid.enterAll (begun.activate scripts).2).2) := by
    intro mid hmid os hos
    have hfree' : ∀ s ∈ (begun.activate scripts).2, mid.registry.isLoaded s.path = false :=
      fun s hs => (isLoaded_of_quiet hmid).trans (hkept s hs)
    exact ((batchEnd_enterAll hapart hfree').then_quiet (quiet_record _ hos)).of_quiet hmid
  have hclosing : Quiet (begun.activate scripts).1
      ((begun.activate scripts).1.record [.scopeClosed]) := quiet_record _ rfl
  have hclosed := hactivated.trans hclosing
  cases scope.opening use.opened with
  | error fault => cases fault <;> exact .nothing _ hbegun
  | ok _ =>
    simp only
    cases scope.closing use.closed with
    | ok _ => exact hend _ hclosed _ rfl
    | error fault =>
      cases fault with
      | panic text => exact .nothing _ hclosed
      | failure message => exact hend _ (hclosed.trans (quiet_report _ _)) _ rfl

/-- **Loading a batch**: observers are told of every script that is entered, and of nothing if
there is no result. -/
theorem batchEnd_load (hk : KeepsAloof σ) (rt : Runtime σ) (env : Surroundings σ)
    (paths : List Path) : BatchEnd rt (rt.load env paths).1 (rt.load env paths).2 := by
  rw [load_eq]
  cases hv : rt.registry.violation? [] (Batch.resolved env.files paths) with
  | some violation => exact .nothing _ (quiet_record rt (notices_reports _ _))
  | none =>
    simp only
    obtain ⟨built, issued, os, use, hconstruct, hfiles, hcalls, hproblems⟩ :=
      construct_eq (rt.afterReading env.files paths) env
        (Batch.trees env.files (Batch.resolved env.files paths))
    obtain ⟨hapart, hfree⟩ := (prepared_of_construct rt issued hfiles hcalls hproblems).paths hv
    have hread := quiet_afterReading rt env.files paths
    have hquiet := hread.trans (quiet_construct (rt.afterReading env.files paths) env
      (Batch.trees env.files (Batch.resolved env.files paths)))
    rw [hconstruct] at hquiet ⊢
    refine BatchEnd.of_quiet hquiet (batchEnd_finish hk _ env.scope _ use hapart fun s hs => ?_)
    rw [isLoaded_of_quiet hquiet]
    exact hfree s hs

/-! ## Unloading -/

/-- What observers are told of a script that has been unloaded. -/
def unloadedNotice (script : Script σ) : Occurrence := .scriptUnloaded script.path

theorem noted_unload (hk : KeepsAloof σ) (rt : Runtime σ) (paths : List Path) :
    Noted rt (rt.unload paths).1 [] := by
  have htaken : Noted rt { rt with registry := (rt.registry.take paths).2 } [] :=
    ⟨[], (List.append_nil _).symm, rfl⟩
  exact htaken.trans ((quiet_unloadPass hk (rt.registry.take paths).1 _).trans
    (quiet_postUnloadPass hk _ _)).noted

/-- **Unloading**: observers are told of every script that is taken out. -/
theorem noted_unloadScripts (hk : KeepsAloof σ) (rt : Runtime σ) (files : FileSystem)
    (paths : List Path) : Noted rt (rt.unloadScripts files paths).1
      ((rt.registry.take (paths.map files.scriptPath)).1.map unloadedNotice) := by
  have hnotices : (rt.unload (paths.map files.scriptPath)).2.map
        (fun out => Occurrence.scriptUnloaded out.1)
      = (rt.registry.take (paths.map files.scriptPath)).1.map unloadedNotice := by
    have hpaths := congrArg (List.map Occurrence.scriptUnloaded) (map_path_unloadPass
      { rt with registry := (rt.registry.take (paths.map files.scriptPath)).2 }
      (rt.registry.take (paths.map files.scriptPath)).1)
    rw [List.map_map, List.map_map] at hpaths
    simp only [unload, List.map_map]
    exact hpaths
  have hall : Occurrence.notices ((rt.registry.take (paths.map files.scriptPath)).1.map
      unloadedNotice) = (rt.registry.take (paths.map files.scriptPath)).1.map unloadedNotice := by
    refine List.filter_eq_self.2 fun o ho => ?_
    obtain ⟨s, -, rfl⟩ := List.mem_map.1 ho
    rfl
  obtain ⟨total, hunload⟩ := exists_unloadScripts rt files paths
  have hrecorded := (noted_unload hk rt (paths.map files.scriptPath)).trans
    (noted_record _ (((rt.unload (paths.map files.scriptPath)).2.map
      fun out => .scriptUnloaded out.1) ++ total.map .batchUnloaded))
  rw [Occurrence.notices_append, hnotices, hall, Occurrence.notices_map fun _ => rfl,
    List.append_nil, List.nil_append, ← hnotices] at hrecorded
  rw [hunload, ← hnotices]
  exact hrecorded

end Runtime

end EventScripts
