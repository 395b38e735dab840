import EventScripts.Proofs.Loader.Agreement
import EventScripts.Proofs.Loader.UnloadAll
import EventScripts.Proofs.Registry.Order
/-!
# Unloading in two passes

Scripts are taken out of the registry before any of their structures is called,
and leave their markers when the last one has been; in between there are two
passes, over the same structures in the same order. `unload_two_passes` says so
of any paths in any state of the registry, whatever comes of the calls, as long
as they do not work on the registry themselves.

The passes are two lists of calls. Scripts are let go during the second one,
which is why its calls are `Spaced`: they follow each other but for that.

`SPEC_FULL.md` §4.4 has the two passes, §8 what callbacks may read meanwhile.
-/

namespace EventScripts

/-- The structures of a type keep out of the registry while they are unloaded. -/
def LeavesAloof (σ : Type) [Structure σ] : Prop :=
  ∀ path (self : σ), (Structure.act .unload path self).Aloof ∧
    (Structure.act .postUnload path self).Aloof

/-- The census that an occurrence carries. -/
def Occurrence.census? : Occurrence → Option Census
  | called _ _ _ census | reported _ census => some census
  | _ => none

/-! ## While the registry is left alone -/

namespace Runtime

variable {σ : Type}

/-- From one runtime to another the registry is the same, and so is every census taken. -/
structure Frozen (rt last : Runtime σ) : Prop where
  registry : last.registry = rt.registry
  censuses : ∃ os, last.trace = rt.trace ++ os ∧
    ∀ o ∈ os, ∀ census, o.census? = some census → census = rt.registry.census

theorem Frozen.refl (rt : Runtime σ) : Frozen rt rt := ⟨rfl, [], (List.append_nil _).symm, nofun⟩

theorem Frozen.trans {rt mid last : Runtime σ} (h : Frozen rt mid) (h' : Frozen mid last) :
    Frozen rt last := by
  obtain ⟨hr, os, htrace, hos⟩ := h
  obtain ⟨hr', more, htrace', hmore⟩ := h'
  refine ⟨hr'.trans hr, os ++ more, by rw [htrace', htrace, List.append_assoc], fun o ho => ?_⟩
  rcases List.mem_append.1 ho with ho | ho
  · exact hos o ho
  · exact hr ▸ hmore o ho

theorem frozen_record (rt : Runtime σ) {os : List Occurrence}
    (h : ∀ o ∈ os, ∀ census, o.census? = some census → census = rt.registry.census) :
    Frozen rt (rt.record os) := ⟨rfl, os, rfl, h⟩

theorem frozen_report (rt : Runtime σ) (problem : Problem) : Frozen rt (rt.report problem) := by
  refine frozen_record rt fun o ho census hc => ?_
  rw [List.mem_singleton.1 ho] at hc
  exact (Option.some.inj hc).symm

/-- What carries no census may be recorded, with any change to the router. -/
theorem frozen_router (rt : Runtime σ) (router : Router) {os : List Occurrence}
    (h : ∀ o ∈ os, o.census? = none) : Frozen rt ({ rt with router }.record os) := by
  refine ⟨rfl, os, rfl, fun o ho census hc => ?_⟩
  rw [h o ho] at hc
  cases hc

theorem census?_host {calls : List HostCall} {os : List Occurrence}
    (h : ∀ o ∈ os, o.census? = none) :
    ∀ o ∈ calls.map Occurrence.host ++ os, o.census? = none := by
  intro o ho
  rcases List.mem_append.1 ho with ho | ho
  · obtain ⟨call, -, rfl⟩ := List.mem_map.1 ho
    rfl
  · exact h o ho

theorem frozen_bind (rt : Runtime σ) (trigger : Trigger) : Frozen rt (rt.bind trigger).1 := by
  unfold bind
  split
  · exact .refl rt
  · next router calls _ =>
    refine frozen_router rt router (census?_host fun o ho => ?_)
    rw [List.mem_singleton.1 ho]
    rfl

theorem frozen_release (rt : Runtime σ) (id : TriggerId) : Frozen rt (rt.release id).1 := by
  refine frozen_router rt _ (census?_host fun o ho => ?_)
  split at ho
  · rw [List.mem_singleton.1 ho]
    rfl
  · cases ho

/-- An action that keeps out of the registry leaves it alone all the time. -/
theorem frozen_perform : ∀ (action : Action σ) (rt : Runtime σ), action.Aloof →
    Frozen rt (rt.perform action).1
  | .finish _ _, rt, _ => .refl rt
  | .bind t next, rt, h =>
    (frozen_bind rt t).trans (frozen_perform (next (rt.bind t).2) (rt.bind t).1 (h _))
  | .release id next, rt, h =>
    (frozen_release rt id).trans (frozen_perform (next (rt.release id).2) (rt.release id).1 (h _))
  | .look next, rt, h => frozen_perform (next rt.router) rt (h _)
  | .remark remark next, rt, h => by
    have hremark : Frozen rt (rt.record [.remarked remark]) := by
      refine frozen_router rt rt.router fun o ho => ?_
      rw [List.mem_singleton.1 ho]
      rfl
    exact hremark.trans (frozen_perform next (rt.record [.remarked remark]) h)

end Runtime

namespace Call

variable {σ : Type} [Structure σ]

/-- The structure keeps out of the registry in this call. -/
def Aloof (c : Call σ) : Prop := (Structure.act c.phase c.member.path c.member.self).Aloof

theorem frozen_after (c : Call σ) (h : c.Aloof) : Runtime.Frozen c.before c.after := by
  have hbegun : Runtime.Frozen c.before c.begun := by
    refine Runtime.frozen_record c.before fun o ho census hc => ?_
    rw [List.mem_singleton.1 ho] at hc
    exact (Option.some.inj hc).symm
  have hacted : Runtime.Frozen c.before c.acted.1 :=
    hbegun.trans (Runtime.frozen_perform _ c.begun h)
  unfold after
  rcases c.outcome_cases with ⟨-, houtcome⟩ | ⟨-, houtcome⟩
  · rw [houtcome]
    exact hacted
  · rw [houtcome]
    exact hacted.trans (Runtime.frozen_report c.acted.1 _)

/-- In teardown one problem is reported of a call that faults, and none of another. -/
theorem problems_of_teardown {c : Call σ} (h : c.phase.isActivation = false) :
    c.problems = (c.fault?.map fun fault => c.problem (some fault)).toList := by
  unfold problems fault?
  cases hv : c.acted.2.1 with
  | ok stays =>
    have haccepted : c.accepted = true := c.outcome_spec.accepted.2 ⟨stays, hv, Or.inr h⟩
    rw [haccepted]
    rfl
  | error fault =>
    have haccepted : c.accepted = false := by
      rw [← Bool.not_eq_true, c.outcome_spec.accepted]
      simp [Accepts, hv]
    rw [haccepted]
    rfl

/-- A call leaves its member its place. -/
theorem map_next {β : Type} (f : Member σ → β)
    (hf : ∀ (m : Member σ) self, f { m with self } = f m) (calls : List (Call σ)) :
    (calls.map next).map f = (calls.map member).map f := by
  rw [List.map_map, List.map_map]
  exact List.map_congr_left fun c _ => hf c.member _

theorem pairwise_next {calls : List (Call σ)}
    (h : (calls.map member).Pairwise Member.Precedes) :
    (calls.map next).Pairwise Member.Precedes := by
  have hslots : ((calls.map member).map Member.slot).Pairwise
      fun a b => a.1 < b.1 ∨ a.1 = b.1 ∧ a.2 < b.2 := List.pairwise_map.2 h
  rwa [← map_next Member.slot (fun _ _ => rfl), List.pairwise_map] at hslots

/-! ## Calls with scripts let go in between -/

/-- The calls follow each other from one runtime to another; scripts may be let go in between. -/
def Spaced (rt : Runtime σ) : List (Call σ) → Runtime σ → Prop
  | [], last => ∃ paths : List Path, last = rt.record (paths.map .discarded)
  | c :: rest, last =>
    (∃ paths : List Path, c.before = rt.record (paths.map .discarded)) ∧ Spaced c.after rest last

/-- Letting a script go does not come between calls. -/
theorem spaced_discarded {calls : List (Call σ)} {rt last : Runtime σ} {path : Path}
    (h : Spaced (rt.record [.discarded path]) calls last) : Spaced rt calls last := by
  have hrecord : ∀ paths : List Path, (rt.record [.discarded path]).record (paths.map .discarded)
      = rt.record ((path :: paths).map .discarded) := fun paths => Runtime.record_record rt _ _
  cases calls with
  | nil =>
    obtain ⟨paths, rfl⟩ := h
    exact ⟨path :: paths, hrecord paths⟩
  | cons c rest =>
    obtain ⟨⟨paths, hb⟩, h⟩ := h
    exact ⟨⟨path :: paths, hb.trans (hrecord paths)⟩, h⟩

theorem spaced_of_linked : ∀ {calls more : List (Call σ)} {rt mid last : Runtime σ},
    Linked rt calls mid → Spaced mid more last → Spaced rt (calls ++ more) last
  | [], _, _, _, _, rfl, hm => hm
  | c :: _, _, rt, _, _, ⟨hb, h⟩, hm =>
    ⟨⟨[], hb.trans (by simp [Runtime.record])⟩, spaced_of_linked h hm⟩

theorem silent_discarded {paths : List Path} : ∀ o ∈ paths.map Occurrence.discarded,
    o.Silent ∧ o.census? = none := by
  intro o ho
  obtain ⟨path, -, rfl⟩ := List.mem_map.1 ho
  exact ⟨⟨rfl, rfl⟩, rfl⟩

/-- Spaced calls are seen in their order, each with its problem. -/
theorem shows_spaced : ∀ {calls : List (Call σ)} {rt last : Runtime σ}, Spaced rt calls last →
    Runtime.Shows rt last (calls.map line) (calls.flatMap problems)
  | [], _, _, ⟨_, rfl⟩ => Runtime.shows_of_silent rfl fun o ho => (silent_discarded o ho).1
  | c :: rest, rt, _, ⟨⟨_, hb⟩, h⟩ => by
    have hbefore : Runtime.Shows rt c.before [] [] := by
      rw [hb]
      exact Runtime.shows_of_silent rfl fun o ho => (silent_discarded o ho).1
    exact (hbefore.trans c.shows_after).trans (shows_spaced h)

/-- **While structures keep out of the registry**, it is the same before and after each call. -/
theorem frozen_spaced : ∀ {calls : List (Call σ)} {rt last : Runtime σ}, Spaced rt calls last →
    (∀ c ∈ calls, c.Aloof) → Runtime.Frozen rt last ∧
      ∀ c ∈ calls, c.before.registry = rt.registry ∧ c.after.registry = rt.registry
  | [], rt, _, ⟨_, rfl⟩, _ =>
    ⟨Runtime.frozen_router rt rt.router fun o ho => (silent_discarded o ho).2, nofun⟩
  | c :: rest, rt, _, ⟨⟨_, hb⟩, h⟩, ha => by
    have hbefore : Runtime.Frozen rt c.before := by
      rw [hb]
      exact Runtime.frozen_router rt rt.router fun o ho => (silent_discarded o ho).2
    have hafter := hbefore.trans (c.frozen_after (ha c List.mem_cons_self))
    obtain ⟨hlast, hcalls⟩ := frozen_spaced h fun c hc => ha c (List.mem_cons_of_mem _ hc)
    refine ⟨hafter.trans hlast, fun d hd => ?_⟩
    rcases List.mem_cons.1 hd with rfl | hd
    · exact ⟨hbefore.registry, hafter.registry⟩
    · exact ⟨(hcalls d hd).1.trans hafter.registry, (hcalls d hd).2.trans hafter.registry⟩

end Call

/-! ## The passes -/

namespace Runtime

variable {σ : Type} [Structure σ]

/-- Calling structures in turn is calling members; all of them are kept. -/
theorem callAll_eq {phase : Phase} (hp : phase ≠ .postLoad) : ∀ (ms : List (Member σ))
    (rt : Runtime σ) (path : Path), (∀ m ∈ ms, m.path = path) →
    rt.callAll phase path (ms.map (·.self))
      = (Call.endOf rt (Call.ofPhase phase rt ms),
        ((Call.ofPhase phase rt ms).map Call.next).map (·.self))
  | [], _, _, _ => rfl
  | m :: rest, rt, path, h => by
    obtain rfl : m.path = path := h m List.mem_cons_self
    have hdone : (Call.mk phase m rt).done = (rt.call phase m.path m.self).1 := by
      simp [Call.done, Call.refuses, hp, Call.after, Call.outcome]
    have hrest := callAll_eq hp rest (rt.call phase m.path m.self).1 m.path
      fun m' hm => h m' (List.mem_cons_of_mem _ hm)
    simp only [List.map_cons, callAll, Call.ofPhase, hdone]
    rw [hrest, ← hdone]
    rfl

/-- **The first pass** calls the members of the scripts, which keep them as they are by then. -/
theorem unloadPass_eq {k : Nat} {scripts : List (Script σ)} {ms : List (Member σ)}
    (h : Member.Grouped k scripts ms) : ∀ rt : Runtime σ,
    (rt.unloadPass scripts).1 = Call.endOf rt (Call.ofPhase .unload rt ms) ∧
      Member.Grouped k (rt.unloadPass scripts).2 ((Call.ofPhase .unload rt ms).map Call.next) := by
  induction h with
  | nil => exact fun rt => ⟨rfl, .nil⟩
  | @cons k script scripts own rest hown horder hself _ ih =>
    intro rt
    have hfirst := callAll_eq (show Phase.unload ≠ .postLoad by decide) own rt script.path
      fun m hm => (hown m hm).2
    obtain ⟨hend, hgrouped⟩ := ih (Call.endOf rt (Call.ofPhase .unload rt own))
    simp only [unloadPass, hself]
    rw [hfirst, Call.ofPhase_append, Call.endOf_append, List.map_append]
    refine ⟨hend, .cons (fun m hm => ?_) ?_ rfl hgrouped⟩
    · obtain ⟨c, hc, rfl⟩ := List.mem_map.1 hm
      exact hown c.member (Call.member_mem_of_mem_ofPhase hc)
    · refine Call.pairwise_next ?_
      rwa [Call.map_member_ofPhase]

/-- **The second pass** calls the members of the scripts, and lets each script go behind them. -/
theorem exists_postUnloadPass {k : Nat} {scripts : List (Script σ)} {ms : List (Member σ)}
    (h : Member.Grouped k scripts ms) : ∀ rt : Runtime σ,
    ∃ calls, Call.Spaced rt calls (rt.postUnloadPass scripts) ∧ calls.map Call.member = ms ∧
      ∀ c ∈ calls, c.phase = .postUnload := by
  induction h with
  | nil =>
    intro rt
    refine ⟨[], ⟨[], by simp [postUnloadPass, record]⟩, rfl, fun c hc => ?_⟩
    cases hc
  | @cons k script scripts own rest hown _ hself _ ih =>
    intro rt
    have hfirst := callAll_eq (show Phase.postUnload ≠ .postLoad by decide) own rt script.path
      fun m hm => (hown m hm).2
    have hphase : ∀ c ∈ Call.ofPhase .postUnload rt own, c.phase = .postUnload :=
      fun c => Call.phase_of_mem_ofPhase
    have hlinked := Call.linked_ofPhase .postUnload rt own
    rw [Call.flatMap_whole_of_ne fun c hc => by simp [hphase c hc]] at hlinked
    obtain ⟨calls, hspaced, hmembers, hphases⟩ :=
      ih ((Call.endOf rt (Call.ofPhase .postUnload rt own)).record [.discarded script.path])
    refine ⟨Call.ofPhase .postUnload rt own ++ calls, ?_, ?_, fun c hc => ?_⟩
    · simp only [postUnloadPass, hself]
      rw [hfirst]
      exact Call.spaced_of_linked hlinked (Call.spaced_discarded hspaced)
    · rw [List.map_append, Call.map_member_ofPhase, hmembers]
    · rcases List.mem_append.1 hc with hc | hc
      · exact hphase c hc
      · exact hphases c hc

/-- The runtime when the structures of some scripts have been called in both passes. -/
def tornDown (rt : Runtime σ) (scripts : List (Script σ)) : Runtime σ :=
  (rt.unloadPass scripts).1.postUnloadPass (rt.unloadPass scripts).2

/-- **Both passes** call the structures of all scripts, the second as the first has left them. -/
theorem exists_passes (rt : Runtime σ) (scripts : List (Script σ)) : ∃ first second : List (Call σ),
    (∀ c ∈ first, c.phase = .unload) ∧ first.map Call.member = Member.ofBatch scripts ∧
      (∀ c ∈ second, c.phase = .postUnload) ∧ second.map Call.member = first.map Call.next ∧
      Call.Spaced rt (first ++ second) (rt.tornDown scripts) := by
  have hphase : ∀ c ∈ Call.ofPhase .unload rt (Member.ofBatch scripts), c.phase = .unload :=
    fun c => Call.phase_of_mem_ofPhase
  obtain ⟨hend, hgrouped⟩ := unloadPass_eq (Member.grouped_ofBatch scripts 0) rt
  obtain ⟨second, hspaced, hmembers, hphases⟩ :=
    exists_postUnloadPass hgrouped (rt.unloadPass scripts).1
  have hlinked : Call.Linked rt (Call.ofPhase .unload rt (Member.ofBatch scripts))
      (rt.unloadPass scripts).1 := by
    have h := Call.linked_ofPhase .unload rt (Member.ofBatch scripts)
    rw [Call.flatMap_whole_of_ne fun c hc => by simp [hphase c hc]] at h
    rw [hend]
    exact h
  exact ⟨_, second, hphase, Call.map_member_ofPhase _ _ _, hphases, hmembers,
    Call.spaced_of_linked hlinked hspaced⟩

/-! ## Unloading -/

theorem map_tallied_unloadPass : ∀ (scripts : List (Script σ)) (rt : Runtime σ),
    (rt.unloadPass scripts).2.map (fun s => (s.path, s.tally))
      = scripts.map fun s => (s.path, s.tally)
  | [], _ => rfl
  | script :: rest, rt => by
    have hrest := map_tallied_unloadPass rest (rt.callAll .unload script.path script.structures).1
    simp only [unloadPass, List.map_cons, Script.tally, length_callAll] at hrest ⊢
    rw [hrest]

/-- Unloading takes the named scripts out, calls their structures, and adds their markers. -/
theorem unload_eq {rt : Runtime σ} (h : rt.registry.InOrder) (paths : List Path) {last : Runtime σ}
    (hl : ({ rt with registry := rt.registry.without paths } : Runtime σ).tornDown
      (rt.registry.named paths) = last) :
    rt.unload paths
      = ({ last with
          registry := last.registry.leaveMarkers ((rt.registry.named paths).map (·.path)) },
        (rt.registry.named paths).map fun s => (s.path, s.tally)) := by
  subst hl
  simp only [unload, Registry.take_eq h, map_path_unloadPass, map_tallied_unloadPass]
  rfl

theorem unload_of_unnamed {rt : Runtime σ} {paths : List Path}
    (h : ∀ s ∈ rt.registry.loaded, paths.any s.path.same = false) : rt.unload paths = (rt, []) := by
  simp only [unload, Registry.take_of_unnamed h]
  rfl

/-- What unloading everything comes to, in any state: the scripts that the loaded paths lead to are
taken out of the registry, and their structures are called in two passes. -/
structure UnloadsAll (rt : Runtime σ) (files : FileSystem) (scripts : List (Script σ))
    (first second : List (Call σ)) (out : Runtime σ × Tally) : Prop where
  taken : scripts = (rt.registry.take (rt.registry.loadedPaths.map files.scriptPath)).1
  tally : out.2 = Tally.sum (scripts.map Script.tally)
  first_phase : ∀ c ∈ first, c.phase = .unload
  first_members : first.map Call.member = Member.ofBatch scripts
  second_phase : ∀ c ∈ second, c.phase = .postUnload
  second_members : second.map Call.member = first.map Call.next
  /-- These calls are seen in their order, and what is reported of them. -/
  calls : Occurrence.calls out.1.trace = Occurrence.calls rt.trace ++ (first ++ second).map Call.line
  reports : Occurrence.problems out.1.trace
    = Occurrence.problems rt.trace ++ (first ++ second).flatMap Call.problems
  /-- The others stay, and so does what structures enter meanwhile. -/
  loaded : ∃ more, out.1.registry.loaded.Perm (more
    ++ (rt.registry.take (rt.registry.loadedPaths.map files.scriptPath)).2.loaded) ∧
    Occurrence.entries out.1.trace = Occurrence.entries rt.trace ++ more.map (·.path)

theorem exists_unloadsAll (rt : Runtime σ) (files : FileSystem) :
    ∃ scripts first second, UnloadsAll rt files scripts first second (rt.unloadAll files) := by
  obtain ⟨htally, hjoined⟩ := unloadScripts_spec rt files rt.registry.loadedPaths
  obtain ⟨total, hrecorded⟩ := exists_unloadScripts rt files rt.registry.loadedPaths
  obtain ⟨first, second, hfirst, hmembers, hsecond, hnext, hspaced⟩ := exists_passes
    { rt with registry := (rt.registry.take (rt.registry.loadedPaths.map files.scriptPath)).2 }
    (rt.registry.take (rt.registry.loadedPaths.map files.scriptPath)).1
  -- what follows the passes is neither a call nor a report
  have hshows : Shows rt (rt.unloadAll files).1 ((first ++ second).map Call.line)
      ((first ++ second).flatMap Call.problems) := by
    have hpasses : Shows rt (rt.unload (rt.registry.loadedPaths.map files.scriptPath)).1
        ((first ++ second).map Call.line) ((first ++ second).flatMap Call.problems) :=
      ⟨(Call.shows_spaced hspaced).calls, (Call.shows_spaced hspaced).problems⟩
    rw [unloadAll, hrecorded]
    refine hpasses.silent (shows_of_silent rfl fun o ho => ?_)
    rcases List.mem_append.1 ho with ho | ho
    · obtain ⟨out, -, rfl⟩ := List.mem_map.1 ho
      exact ⟨rfl, rfl⟩
    · obtain ⟨tally, -, rfl⟩ := List.mem_map.1 ho
      exact ⟨rfl, rfl⟩
  refine ⟨(rt.registry.take (rt.registry.loadedPaths.map files.scriptPath)).1, first, second, ?_⟩
  constructor
  case taken => rfl
  case tally => exact htally
  case first_phase => exact hfirst
  case first_members => exact hmembers
  case second_phase => exact hsecond
  case second_members => exact hnext
  case calls => exact hshows.calls
  case reports => exact hshows.problems
  case loaded => exact hjoined

/-- What unloading some paths comes to: two passes over the scripts that are loaded and named. -/
structure TwoPasses (rt : Runtime σ) (paths : List Path) (first second : List (Call σ)) :
    Prop where
  /-- The first pass is over all structures of the named scripts: the scripts in registry order,
  each once, and the structures in the order of the file. -/
  first_phase : ∀ c ∈ first, c.phase = .unload
  first_members : first.map Call.member = Member.ofBatch (rt.registry.named paths)
  /-- The second pass is over the same structures, as the first has left them. -/
  second_phase : ∀ c ∈ second, c.phase = .postUnload
  second_members : second.map Call.member = first.map Call.next
  /-- The calls of both passes follow each other. -/
  spaced : Call.Spaced { rt with registry := rt.registry.without paths } (first ++ second)
    { (rt.unload paths).1 with registry := rt.registry.without paths }
  /-- These calls are seen, and one report of each that faults. -/
  calls : Occurrence.calls (rt.unload paths).1.trace
    = Occurrence.calls rt.trace ++ (first ++ second).map Call.line
  reports : Occurrence.problems (rt.unload paths).1.trace = Occurrence.problems rt.trace
    ++ (first ++ second).filterMap fun c => c.fault?.map fun fault => c.problem (some fault)
  /-- Meanwhile the named scripts are not in the registry, and no marker has been added; so it is
  before and after each call, and with each report. -/
  hidden : ∀ c ∈ first ++ second, c.before.registry = rt.registry.without paths ∧
    c.after.registry = rt.registry.without paths
  censuses : ∃ os, (rt.unload paths).1.trace = rt.trace ++ os ∧
    ∀ o ∈ os, ∀ census, o.census? = some census → census = (rt.registry.without paths).census
  /-- Afterwards they have left the registry, and their markers are in it. -/
  loaded : (rt.unload paths).1.registry.loaded = (rt.registry.without paths).loaded
  disabled : ∀ p, Ordered.contains Path.keyCompare p (rt.unload paths).1.registry.disabled = true ↔
    Ordered.contains Path.keyCompare p rt.registry.disabled = true ∨
      ∃ s ∈ rt.registry.named paths, p.same s.path.disabled = true
  /-- The result lists them with the numbers of their structures. -/
  result : (rt.unload paths).2 = (rt.registry.named paths).map fun s => (s.path, s.tally)
  distinct : Registry.Apart (rt.registry.named paths)
  /-- Unloading the same paths again does nothing. -/
  again : (rt.unload paths).1.unload paths = ((rt.unload paths).1, [])

theorem two_passes_of_inOrder (ha : LeavesAloof σ) {rt : Runtime σ} (h : rt.registry.InOrder)
    (paths : List Path) : ∃ first second, TwoPasses rt paths first second := by
  obtain ⟨first, second, hfirst, hmembers, hsecond, hnext, hspaced⟩ := exists_passes
    { rt with registry := rt.registry.without paths } (rt.registry.named paths)
  have hunload := unload_eq h paths rfl
  generalize ({ rt with registry := rt.registry.without paths } : Runtime σ).tornDown
    (rt.registry.named paths) = last at hspaced hunload
  have haloof : ∀ c ∈ first ++ second, c.Aloof := by
    intro c hc
    unfold Call.Aloof
    rcases List.mem_append.1 hc with hc | hc
    · rw [hfirst c hc]
      exact (ha _ _).1
    · rw [hsecond c hc]
      exact (ha _ _).2
  have hteardown : ∀ c ∈ first ++ second, c.phase.isActivation = false := by
    intro c hc
    rcases List.mem_append.1 hc with hc | hc
    · rw [hfirst c hc]
      rfl
    · rw [hsecond c hc]
      rfl
  have hshows := Call.shows_spaced hspaced
  obtain ⟨hfrozen, hbetween⟩ := Call.frozen_spaced hspaced haloof
  have hregistry : last.registry = rt.registry.without paths := hfrozen.registry
  refine ⟨first, second, ?_⟩
  constructor
  case first_phase => exact hfirst
  case first_members => exact hmembers
  case second_phase => exact hsecond
  case second_members => exact hnext
  case spaced =>
    rw [hunload]
    exact hregistry ▸ hspaced
  case calls =>
    rw [hunload]
    exact hshows.calls
  case reports =>
    rw [hunload, List.filterMap_eq_flatMap_toList]
    refine hshows.problems.trans (congrArg _ (List.flatMap_congr fun c hc => ?_))
    exact Call.problems_of_teardown (hteardown c hc)
  case hidden => exact hbetween
  case censuses =>
    rw [hunload]
    exact hfrozen.censuses
  case loaded =>
    rw [hunload]
    show last.registry.loaded = _
    rw [hregistry]
  case disabled =>
    intro p
    rw [hunload, hregistry]
    simp only [Registry.contains_leaveMarkers, List.mem_map, exists_exists_and_eq_and]
    rfl
  case result => rw [hunload]
  case distinct => exact h.apart.sublist List.filter_sublist
  case again =>
    refine unload_of_unnamed fun s hs => ?_
    rw [hunload] at hs
    have hleft : s ∈ (rt.registry.without paths).loaded := hregistry ▸ hs
    simpa using (List.mem_filter.1 hleft).2

/-- **Unloading is two passes**, in every state of the registry and for any paths. -/
theorem unload_two_passes (ha : LeavesAloof σ) (rt : Runtime σ) (ops : List (Registry.Op σ))
    (paths : List Path) : ∃ first second,
    TwoPasses { rt with registry := Registry.Op.applyAll {} ops } paths first second :=
  two_passes_of_inOrder ha (Registry.inOrder_history ops) paths

end Runtime

theorem leavesAloof_handler : LeavesAloof Handler := fun path self =>
  ⟨keepsAloof_handler .unload path self, keepsAloof_handler .postUnload path self⟩

/-- A script with one handler. -/
def handled (id : TriggerId) (path : Path) : Script Handler :=
  ⟨path, [⟨{ id, name := "on join", script := path, kinds := ["join"] }, standardPriority⟩]⟩

/-- A runtime with three scripts that were not entered in the order of their paths. -/
def threeHandled : Runtime Handler where
  router := { catalog := Demo.catalog }
  registry := Registry.Op.applyAll {}
    [.insert (handled 2 ⟨"/b.sk"⟩), .insert (handled 3 ⟨"/c.sk"⟩), .insert (handled 1 ⟨"/a.sk"⟩)]

theorem unload_two_passes_handled :
    (LeavesAloof Handler ∧ (threeHandled.unload [⟨"/c.sk"⟩, ⟨"/d.sk"⟩, ⟨"/a.sk"⟩, ⟨"/c.sk"⟩]).2
      = [(⟨"/a.sk"⟩, ⟨1, 1⟩), (⟨"/c.sk"⟩, ⟨1, 1⟩)]) ∧
    ∃ first second, Runtime.TwoPasses threeHandled
      [⟨"/c.sk"⟩, ⟨"/d.sk"⟩, ⟨"/a.sk"⟩, ⟨"/c.sk"⟩] first second := by
  refine ⟨⟨leavesAloof_handler, ?_⟩,
    Runtime.unload_two_passes leavesAloof_handler threeHandled _ _⟩
  decide +kernel

end EventScripts
