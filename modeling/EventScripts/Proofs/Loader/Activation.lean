import EventScripts.Proofs.Loader.Journal
import EventScripts.Proofs.Loader.Members
import EventScripts.Proofs.Registry.Entries
/-!
# Activation as a journal

The activation of a batch is three lists of calls, one for each phase, and what
they leave in place. `exists_activation` says which members each phase calls and
in which order, and that the scripts end with exactly the members that have
stayed in all three phases.
-/

namespace EventScripts

variable {σ : Type} [Structure σ]

/-- The calls by which scripts are activated. -/
structure Activation (rt : Runtime σ) (scripts : List (Script σ)) (pre load post : List (Call σ)) :
    Prop where
  pre_phase : ∀ c ∈ pre, c.phase = .preLoad
  load_phase : ∀ c ∈ load, c.phase = .load
  post_phase : ∀ c ∈ post, c.phase = .postLoad
  /-- `preLoad` is for every structure of the batch, in order of priority. -/
  pre_members : (pre.map Call.member).Perm (Member.ofBatch scripts)
  pre_order : (pre.map Call.member).Pairwise Member.Outranks
  /-- `load` is for those that stay, in the order of the batch. -/
  load_members : (load.map Call.member).Perm (Call.staying pre)
  load_order : (load.map Call.member).Pairwise Member.Precedes
  /-- `postLoad` is for those that still stay, in the same order. -/
  post_members : post.map Call.member = Call.staying load
  linked : Call.Linked rt (Call.journal pre load post) (rt.activate scripts).1
  /-- What the scripts have left are the members that stay. -/
  grouped : Member.Grouped 0 (rt.activate scripts).2 (Call.staying post)
  result : (rt.activate scripts).2 = Member.group 0 scripts (Call.staying post)

/-- The scripts keep their paths. -/
theorem Activation.paths {rt : Runtime σ} {scripts : List (Script σ)}
    {pre load post : List (Call σ)} (h : Activation rt scripts pre load post) :
    (rt.activate scripts).2.map (·.path) = scripts.map (·.path) := by
  rw [h.result, Member.map_path_group]

theorem Activation.apart {rt : Runtime σ} {scripts : List (Script σ)}
    {pre load post : List (Call σ)} (h : Activation rt scripts pre load post)
    (ha : Registry.Apart scripts) : Registry.Apart (rt.activate scripts).2 := by
  rw [Registry.apart_iff, h.paths]
  exact Registry.apart_iff.1 ha

namespace Runtime

/-- A phase that goes from script to script calls the members of the scripts in order. -/
theorem eachScript_eq {phase : Phase} {visit : Runtime σ → Path → List σ → Runtime σ × List σ}
    (hv : Visits phase visit) {k : Nat} {scripts : List (Script σ)} {ms : List (Member σ)}
    (h : Member.Grouped k scripts ms) : ∀ rt : Runtime σ,
    ∃ after, eachScript visit rt scripts = (Call.endOf rt (Call.ofPhase phase rt ms), after) ∧
      Member.Grouped k after (Call.staying (Call.ofPhase phase rt ms)) ∧
      after.map (·.path) = scripts.map (·.path) := by
  induction h with
  | nil => exact fun rt => ⟨[], rfl, .nil, rfl⟩
  | @cons k script scripts own rest hown horder hself hrest ih =>
    intro rt
    have hfirst := hv rt script.path own fun m hm => (hown m hm).2
    obtain ⟨after, heq, hgrouped, hpaths⟩ := ih (Call.endOf rt (Call.ofPhase phase rt own))
    refine ⟨{ script with
      structures := (Call.staying (Call.ofPhase phase rt own)).map (·.self) } :: after, ?_, ?_, ?_⟩
    · simp only [eachScript, hself]
      rw [hfirst, Call.ofPhase_append, Call.endOf_append]
      simp only
      rw [heq]
    · rw [Call.ofPhase_append, Call.staying_append]
      refine .cons (fun m hm => ?_) ?_ rfl hgrouped
      · -- the number and the path of a member are what they were when it was called
        obtain ⟨c, hc, rfl⟩ := Call.mem_staying hm
        exact hown c.member (Call.member_mem_of_mem_ofPhase hc)
      · exact Call.pairwise_staying (by rwa [Call.map_member_ofPhase])
    · simp [hpaths]

/-- The first phase: what stays is put back into the scripts, in the order of the batch. -/
theorem preLoad_eq (rt : Runtime σ) (scripts : List (Script σ)) : ∃ after ms,
    rt.preLoad scripts = (Call.endOf rt
      (Call.ofPhase .preLoad rt (Member.byPriority (Member.ofBatch scripts))), after) ∧
    Member.Grouped 0 after ms ∧
    ms.Perm (Call.staying (Call.ofPhase .preLoad rt (Member.byPriority (Member.ofBatch scripts)))) ∧
    after.map (·.path) = scripts.map (·.path) := by
  have hms := Member.byPriority_perm (Member.ofBatch scripts)
  generalize hpre : Call.ofPhase .preLoad rt (Member.byPriority (Member.ofBatch scripts)) = pre
  have hslots : ((Call.staying pre).map Member.slot).Nodup := by
    have hsub := Call.staying_sublist Member.slot (fun _ _ => rfl) pre
    rw [← hpre, Call.map_member_ofPhase, hpre] at hsub
    exact ((hms.map _).nodup_iff.2 (Member.nodup_slots (Member.pairwise_ofBatch _))).sublist hsub
  have hplace : ∀ m ∈ Call.staying pre, m.BelongsTo scripts := by
    refine Call.belongsTo_staying fun m hm => ?_
    rw [← hpre, Call.map_member_ofPhase] at hm
    exact Member.belongsTo_of_mem_ofBatch (hms.subset hm)
  refine ⟨Member.toBatch (Call.staying pre) scripts, Member.arranged 0 scripts (Call.staying pre),
    ?_, ?_, ?_, ?_⟩
  · simp only [preLoad, preLoadMembers_eq, hpre]
  · refine Member.grouped_arranged hslots scripts 0 fun m hm i script hi hs => ?_
    obtain ⟨script', hget, hp⟩ := hplace m hm
    rw [hs, Nat.zero_add, hi] at hget
    rw [hp, Option.some.inj hget]
  · have h := Member.arranged_perm (Call.staying pre) scripts 0 fun m hm => by
      obtain ⟨script, hget, -⟩ := hplace m hm
      have := (List.getElem?_eq_some_iff.1 hget).1
      omega
    rwa [List.filter_eq_self.2 fun m _ => by simp] at h
  · rw [Member.toBatch, List.map_map]
    conv => rhs; rw [← List.zipIdx_map_fst 0 scripts, List.map_map]
    rfl

/-- **Every activation is a journal of the three phases.** -/
theorem exists_activation (rt : Runtime σ) (scripts : List (Script σ)) :
    ∃ pre load post, Activation rt scripts pre load post := by
  obtain ⟨placed, ms, hfirst, hgrouped, hperm, hplaced⟩ := preLoad_eq rt scripts
  have hpreLinked := Call.linked_ofPhase .preLoad rt (Member.byPriority (Member.ofBatch scripts))
  have hpreMembers := Call.map_member_ofPhase .preLoad rt
    (Member.byPriority (Member.ofBatch scripts))
  have hprePhase : ∀ c ∈ Call.ofPhase .preLoad rt (Member.byPriority (Member.ofBatch scripts)),
      c.phase = .preLoad := fun c => Call.phase_of_mem_ofPhase
  generalize Call.ofPhase .preLoad rt (Member.byPriority (Member.ofBatch scripts)) = pre at *
  obtain ⟨loaded, hload, hloaded, hpaths⟩ :=
    eachScript_eq visits_loadStructures hgrouped (Call.endOf rt pre)
  have hloadLinked := Call.linked_ofPhase .load (Call.endOf rt pre) ms
  have hloadMembers := Call.map_member_ofPhase .load (Call.endOf rt pre) ms
  have hloadPhase : ∀ c ∈ Call.ofPhase .load (Call.endOf rt pre) ms, c.phase = .load :=
    fun c => Call.phase_of_mem_ofPhase
  generalize Call.ofPhase .load (Call.endOf rt pre) ms = load at *
  obtain ⟨kept, hpost, hkept, hpaths'⟩ :=
    eachScript_eq visits_postLoadStructures hloaded (Call.endOf (Call.endOf rt pre) load)
  have hactivate := hpost
  rw [show eachScript postLoadStructures _ loaded = rt.activate scripts by
    simp only [activate, hfirst, hload]] at hactivate
  rw [Call.flatMap_whole_of_ne fun c hc => by simp [hprePhase c hc]] at hpreLinked
  rw [Call.flatMap_whole_of_ne fun c hc => by simp [hloadPhase c hc]] at hloadLinked
  refine ⟨pre, load,
    Call.ofPhase .postLoad (Call.endOf (Call.endOf rt pre) load) (Call.staying load), ?_⟩
  constructor
  case pre_phase => exact hprePhase
  case load_phase => exact hloadPhase
  case post_phase => exact fun c => Call.phase_of_mem_ofPhase
  case pre_members => rw [hpreMembers]; exact Member.byPriority_perm _
  case pre_order =>
    rw [hpreMembers]
    exact Member.pairwise_byPriority (Member.pairwise_ofBatch scripts)
  case load_members => rwa [hloadMembers]
  case load_order =>
    rw [hloadMembers]
    exact hgrouped.pairwise
  case post_members => exact Call.map_member_ofPhase _ _ _
  case linked =>
    rw [hactivate]
    exact Call.linked_append (Call.linked_append hpreLinked hloadLinked)
      (Call.linked_ofPhase .postLoad _ _)
  case grouped =>
    rw [hactivate]
    exact hkept
  case result =>
    rw [hactivate]
    exact hkept.eq_group (hplaced.symm.trans (hpaths.symm.trans hpaths'.symm))

end Runtime

end EventScripts
