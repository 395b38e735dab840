import EventScripts.Demo.Grammar
import EventScripts.Proofs.Loader.Loading
import EventScripts.Proofs.Loader.Owning
import Mathlib
/-!
# Orphans of a batch

A structure that has accepted `load` should end up in a script that the batch
records, or be unloaded. A refusal in `postLoad` unloads it at once; from then
on the loader relies on the scripts being recorded. They are not if the closing
of the scope panics, and a script is not if a callback has entered another one
under its path: then its structures are lost, and what they have bound stays
bound. `load_orphans_iff` says that nothing else goes wrong.

`SPEC_FULL.md` §3 wants a structure of a script to be one that survived all phases,
and §10.3 wants panics of collaborators to be caught.
-/

namespace EventScripts

variable {σ : Type} [Structure σ]

/-- A structure is held by a script that has been recorded after the activation. -/
def Member.Recorded (activated last : Runtime σ) (m : Member σ) : Prop :=
  ∃ s ∈ last.registry.loaded, s.path = m.path ∧ m.self ∈ s.structures ∧
    activated.registry.isLoaded s.path = false

/-- A structure has been called to unload and to finish unloading. -/
def Member.TornDown (journal : List (Call σ)) (m : Member σ) : Prop :=
  (∃ u ∈ journal, u.phase = .unload ∧ u.member.slot = m.slot) ∧
    ∃ f ∈ journal, f.phase = .postUnload ∧ f.member.slot = m.slot

namespace Activation

variable {start : Runtime σ} {scripts : List (Script σ)} {pre load post : List (Call σ)}

theorem nodup_post_slots (h : Activation start scripts pre load post) :
    (post.map fun p => p.member.slot).Nodup := by
  have hload := Call.pairwise_staying h.load_order
  rw [← h.post_members] at hload
  have hslots := Member.nodup_slots hload
  rwa [List.map_map] at hslots

/-- Only a `postLoad` that turns a structure away unloads it. -/
theorem refuses_of_unload (h : Activation start scripts pre load post) {u p : Call σ}
    (hu : u ∈ Call.journal pre load post) (hphase : u.phase = .unload) (hp : p ∈ post)
    (hslot : u.member.slot = p.member.slot) : p.refuses = true := by
  rcases List.mem_append.1 hu with hu | hu
  · rcases List.mem_append.1 hu with hu | hu
    · rw [h.pre_phase u hu] at hphase
      cases hphase
    · rw [h.load_phase u hu] at hphase
      cases hphase
  · obtain ⟨q, hq, hu⟩ := List.mem_flatMap.1 hu
    unfold Call.whole at hu
    split at hu
    · next hr =>
      have hqp : q.member.slot = p.member.slot → q = p := fun hs =>
        List.inj_on_of_nodup_map h.nodup_post_slots hq hp hs
      simp only [List.mem_cons, List.not_mem_nil, or_false] at hu
      rcases hu with rfl | rfl | rfl
      · rw [h.post_phase u hq] at hphase
        cases hphase
      · rwa [hqp hslot] at hr
      · cases hphase
    · rw [List.mem_singleton.1 hu, h.post_phase q hq] at hphase
      cases hphase

theorem tornDown_of_refuses {p : Call σ} (hp : p ∈ post) (hr : p.refuses = true) :
    p.member.TornDown (Call.journal pre load post) := by
  have hwhole : ∀ c ∈ [p.unloading, p.finishing], c ∈ Call.journal pre load post := by
    intro c hc
    refine List.mem_append_right _ (List.mem_flatMap.2 ⟨p, hp, ?_⟩)
    rw [Call.whole, if_pos hr]
    exact List.mem_cons_of_mem _ hc
  exact ⟨⟨p.unloading, hwhole _ (by simp), rfl, rfl⟩, ⟨p.finishing, hwhole _ (by simp), rfl, rfl⟩⟩

/-- A structure that has accepted `load` is called for `postLoad`. -/
theorem exists_post (h : Activation start scripts pre load post) {c : Call σ} (hc : c ∈ load)
    (ha : c.accepted = true) : ∃ p ∈ post, p.member = c.next := by
  have hmem : c.next ∈ post.map Call.member := by
    rw [h.post_members]
    exact List.mem_map_of_mem (List.mem_filter.2 ⟨hc, ha⟩)
  obtain ⟨p, hp, he⟩ := List.mem_map.1 hmem
  exact ⟨p, hp, he⟩

/-- A structure that has stayed has accepted `load`, and has not been unloaded. -/
theorem exists_load (h : Activation start scripts pre load post) {m : Member σ}
    (hm : m ∈ Call.staying post) : ∃ c ∈ load, c.accepted = true ∧ c.member.slot = m.slot ∧
      ¬c.member.TornDown (Call.journal pre load post) := by
  obtain ⟨p, hp, rfl⟩ := List.mem_map.1 hm
  obtain ⟨hp, ha⟩ := List.mem_filter.1 hp
  have hmem : p.member ∈ Call.staying load := by
    rw [← h.post_members]
    exact List.mem_map_of_mem hp
  obtain ⟨c, hc, he⟩ := List.mem_map.1 hmem
  obtain ⟨hc, hca⟩ := List.mem_filter.1 hc
  have hslot : c.member.slot = p.member.slot := by
    rw [← he]
    rfl
  refine ⟨c, hc, hca, hslot, ?_⟩
  rintro ⟨⟨u, hu, hphase, hus⟩, -⟩
  have hr := h.refuses_of_unload hu hphase hp (hus.trans hslot)
  simp [Call.refuses, ha] at hr

theorem eq_of_slot (h : Activation start scripts pre load post) {m m' : Member σ}
    (hm : m ∈ Call.staying post) (hm' : m' ∈ Call.staying post) (hs : m.slot = m'.slot) :
    m = m' :=
  List.inj_on_of_nodup_map (Member.nodup_slots h.grouped.pairwise) hm hm' hs

end Activation

/-! ## Who is recorded -/

namespace Runtime

variable {rt start : Runtime σ} {scripts : List (Script σ)} {pre load post : List (Call σ)}

/-- The batch has ended well, and the path of the structure's script was free by then. -/
def Spared (result : Except Interruption Tally) (activated : Runtime σ) (m : Member σ) : Prop :=
  result.isOk = true ∧ activated.registry.isLoaded m.path = false

/-- How a batch ends behind an activation. -/
def EndsBehind (start : Runtime σ) (scripts : List (Script σ))
    (out : Runtime σ × Except Interruption Tally) : Prop :=
  (∃ text, out = ((start.activate scripts).1.record [.scopeClosed], .error (.panic text))) ∨
    ∃ tally, out.2 = .ok tally ∧
      Completed (start.activate scripts).1 (start.activate scripts).2 out.1

/-- **A structure that has stayed is recorded exactly if it has been spared.** -/
theorem recorded_iff (h : Activation start scripts pre load post) (ha : Registry.Apart scripts)
    {out : Runtime σ × Except Interruption Tally} (he : EndsBehind start scripts out)
    {m : Member σ} (hm : m ∈ Call.staying post) :
    m.Recorded (start.activate scripts).1 out.1 ↔ Spared out.2 (start.activate scripts).1 m := by
  rcases he with ⟨text, rfl⟩ | ⟨tally, hok, hregistry, -, -⟩
  · constructor
    · rintro ⟨s, hs, -, -, hfree⟩
      have hloaded : (start.activate scripts).1.registry.isLoaded s.path = true :=
        Registry.isLoaded_of_mem hs
      rw [hloaded] at hfree
      cases hfree
    · rintro ⟨hok, -⟩
      cases hok
  · constructor
    · rintro ⟨s, -, hpath, -, hfree⟩
      exact ⟨by rw [hok]; rfl, hpath ▸ hfree⟩
    · rintro ⟨-, hfree⟩
      obtain ⟨s, hs, hpath, hheld⟩ := h.grouped.mem m hm
      refine ⟨s, ?_, hpath, hheld, hpath ▸ hfree⟩
      rw [hregistry, (Registry.loaded_enterEach_perm (h.apart ha)).mem_iff]
      exact List.mem_append_left _ (List.mem_filter.2 ⟨hs, by rw [hpath, hfree]; rfl⟩)

/-- Every structure that has accepted `load` has been torn down, or is held by a script that has
been recorded. -/
def NoOrphan (activated last : Runtime σ) (pre load post : List (Call σ)) : Prop :=
  ∀ c ∈ load, c.accepted = true → c.member.TornDown (Call.journal pre load post) ∨
    ∃ m ∈ Call.staying post, m.slot = c.member.slot ∧ m.Recorded activated last

/-- Every trigger that is bound besides those served before is owned by a structure that has been
recorded. -/
def NoOrphanTrigger (own : σ → Option Trigger) (before : List Trigger)
    (activated last : Runtime σ) (post : List (Call σ)) : Prop :=
  ∀ t, t ∉ before → (∃ c, t ∈ last.router.bound c) →
    ∃ m ∈ Call.staying post, own m.self = some t ∧ m.Recorded activated last

/-- No structure that has accepted `load` is lost exactly if all that have stayed are spared. -/
theorem no_orphan_iff (h : Activation start scripts pre load post) (ha : Registry.Apart scripts)
    {out : Runtime σ × Except Interruption Tally} (he : EndsBehind start scripts out) :
    NoOrphan (start.activate scripts).1 out.1 pre load post ↔
      ∀ m ∈ Call.staying post, Spared out.2 (start.activate scripts).1 m := by
  constructor
  · intro hall m hm
    obtain ⟨c, hc, hca, hslot, hnot⟩ := h.exists_load hm
    rcases hall c hc hca with htorn | ⟨m', hm', hslot', hrec⟩
    · exact absurd htorn hnot
    · rw [h.eq_of_slot hm' hm (hslot'.trans hslot)] at hrec
      exact (recorded_iff h ha he hm).1 hrec
  · intro hall c hc hca
    obtain ⟨p, hp, hmember⟩ := h.exists_post hc hca
    have hslot : p.member.slot = c.member.slot := by
      rw [hmember]
      rfl
    cases hr : p.refuses with
    | true =>
      have htorn : p.member.TornDown (Call.journal pre load post) :=
        Activation.tornDown_of_refuses hp hr
      unfold Member.TornDown at htorn ⊢
      rw [hslot] at htorn
      exact Or.inl htorn
    | false =>
      have hpa : p.accepted = true := by
        simpa [Call.refuses, h.post_phase p hp] using hr
      have hm : p.next ∈ Call.staying post := List.mem_map_of_mem (List.mem_filter.2 ⟨hp, hpa⟩)
      exact Or.inr ⟨p.next, hm, hslot, (recorded_iff h ha he hm).2 (hall _ hm)⟩

/-- No trigger that the batch has bound is left without a recorded owner exactly if the structures
that own one and have stayed are spared. -/
theorem no_orphan_trigger_iff (h : Activation start scripts pre load post)
    (ha : Registry.Apart scripts) {out : Runtime σ × Except Interruption Tally}
    (he : EndsBehind start scripts out) {own : σ → Option Trigger} (ho : Owning own)
    {ts : List Trigger} (hs : start.router.Serves ts) :
    NoOrphanTrigger own ts (start.activate scripts).1 out.1 post ↔
      ∀ m ∈ Call.staying post, (own m.self).isSome = true →
        Spared out.2 (start.activate scripts).1 m := by
  have hserves : out.1.router.Serves (ts ++ Call.triggers own (Call.staying post)) := by
    have hact := h.serves ho hs
    rcases he with ⟨text, rfl⟩ | ⟨tally, -, -, hrouter, -⟩
    · exact hact
    · rwa [hrouter]
  have hnodup : (ts ++ Call.triggers own (Call.staying post)).Nodup :=
    List.Nodup.of_map _ hserves.ids
  obtain ⟨-, htriggers, hnew⟩ := List.nodup_append.1 hnodup
  have howner : ∀ {m : Member σ} {t : Trigger}, m ∈ Call.staying post → own m.self = some t →
      t ∈ Call.triggers own (Call.staying post) := fun hm hown =>
    List.mem_filterMap.2 ⟨_, hm, hown⟩
  constructor
  · intro hall m hm hsome
    obtain ⟨t, hown⟩ := Option.isSome_iff_exists.1 hsome
    have ht := howner hm hown
    obtain ⟨m', hm', hown', hrec⟩ := hall t (fun hts => hnew t hts t ht rfl)
      (hserves.mem_iff.1 (List.mem_append_right _ ht))
    have hsame : m' = m := Call.owner_unique htriggers hm' hm hown' hown
    exact (recorded_iff h ha he hm).1 (hsame ▸ hrec)
  · intro hall t hts hbound
    rcases List.mem_append.1 (hserves.mem_iff.2 hbound) with ht | ht
    · exact absurd ht hts
    · obtain ⟨m, hm, hown⟩ := List.mem_filterMap.1 ht
      exact ⟨m, hm, hown, (recorded_iff h ha he hm).2 (hall m hm (by simp [hown]))⟩

/-- **The orphans of a batch**: none is left exactly if the structures that have stayed in all
phases are spared a closing that panics and a script that has taken their path. So it is too for
triggers, among structures that own them. -/
theorem load_orphans_iff (rt : Runtime σ) (env : Surroundings σ) (paths : List Path) :
    (Occurrence.calls (rt.load env paths).1.trace = Occurrence.calls rt.trace ∧
      (rt.load env paths).1.router = rt.router ∧
      (rt.load env paths).1.registry = rt.registry) ∨
    ∃ built start activated pre load post, Prepared rt env paths built start ∧
      Activation start (built.filterMap Built.script?) pre load post ∧
      activated = (start.activate (built.filterMap Built.script?)).1 ∧
      Occurrence.calls (rt.load env paths).1.trace
        = Occurrence.calls rt.trace ++ (Call.journal pre load post).map Call.line ∧
      (NoOrphan activated (rt.load env paths).1 pre load post ↔
        ∀ m ∈ Call.staying post, Spared (rt.load env paths).2 activated m) ∧
      ∀ (own : σ → Option Trigger) (ts : List Trigger), Owning own → rt.router.Serves ts →
        (NoOrphanTrigger own ts activated (rt.load env paths).1 post ↔
          ∀ m ∈ Call.staying post, (own m.self).isSome = true →
            Spared (rt.load env paths).2 activated m) := by
  rcases load_cases rt env paths with ⟨violation, hl⟩ | ⟨built, start, hprepared, ha, -, hend⟩
  · refine Or.inl ?_
    rw [hl]
    exact ⟨by simpa using (shows_reports rt _ _).calls, rfl, rfl⟩
  · obtain ⟨pre, load, post, hact⟩ := exists_activation start (built.filterMap Built.script?)
    have hbehind : (∃ e, rt.load env paths = (start, .error e)) ∨
        ∃ problems, EndsBehind start (built.filterMap Built.script?) (rt.load env paths) ∧
          Shows (start.activate (built.filterMap Built.script?)).1 (rt.load env paths).1 []
            problems := by
      rcases hend with he | ⟨text, -, -, hl⟩ | ⟨tally, hok, hcompleted⟩
      · exact Or.inl he
      · refine Or.inr ⟨[], Or.inl ⟨text, hl⟩, ?_⟩
        rw [hl]
        exact shows_record _ [.scopeClosed]
      · obtain ⟨closed, hshows⟩ := hcompleted.shows
        exact Or.inr ⟨_, Or.inr ⟨tally, hok, hcompleted⟩, hshows⟩
    rcases hbehind with ⟨e, hl⟩ | ⟨problems, he, hshows⟩
    · refine Or.inl ?_
      rw [hl]
      exact ⟨hprepared.calls, hprepared.router, hprepared.registry⟩
    · have hseen := (Call.shows_linked hact.linked).trans hshows
      refine Or.inr ⟨built, start, _, pre, load, post, hprepared, hact, rfl, ?_,
        no_orphan_iff hact ha he, fun own ts ho hs => ?_⟩
      · rw [hseen.calls, hprepared.calls, List.append_nil]
      · exact no_orphan_trigger_iff hact ha he ho (hprepared.router.symm ▸ hs)

/-- A scope whose second closing, the one around the activation, panics. -/
def panickyScope : Scope where
  closing n := if n = 1 then .error (.panic (some "close 1 panicked")) else .ok ()

/-- A section is loaded and stays bound, though its script is not recorded: the scope has panicked
while it was closed, and nothing has been unloaded. -/
theorem orphan_of_panicking_close :
    let files : FileSystem := { entries := [(["a.sk"], .file (.text "on join:\n  hi\n"))] }
    let out := (⟨⟨Demo.catalog, []⟩, {}, 0, 1, []⟩ : Runtime Handler).load
      ⟨Demo.grammar, files, panickyScope, []⟩ [⟨"/a.sk"⟩]
    out.2 = .error (.panic (some "close 1 panicked")) ∧
      (Occurrence.calls out.1.trace).map (·.1) = [.preLoad, .load, .postLoad] ∧
      Occurrence.problems out.1.trace = [] ∧
      out.1.registry.loadedPaths = [] ∧ out.1.router.triggerIds = [1] := by
  -- evaluates the whole run, with equations of library functions from all over Mathlib
  cbv

end Runtime

end EventScripts
