import EventScripts.Proofs.Loader.Activation
import EventScripts.Proofs.Loader.Seen
import EventScripts.Proofs.Router.Serves
import EventScripts.Script.Handler
/-!
# Structures that own triggers

A structure may own a trigger: it binds the trigger when it is loaded, keeps it
as long as it stays, and releases it when it is unloaded. `Owning` is the law
for a type of structures; `owning_handler` says that handlers keep it. By that
law the router serves, after an activation, what it served before and the
triggers of the structures that have stayed.
-/

namespace EventScripts

namespace Action

variable {σ : Type}

/-- The action neither binds nor releases, and ends as told. -/
def Idle (ends : Except Fault Bool → σ → Prop) : Action σ → Prop
  | finish verdict self => ends verdict self
  | bind _ _ | release _ _ => False
  | enroll _ next => ∀ answer, (next answer).Idle ends
  | look next => ∀ router, (next router).Idle ends
  | remark _ next => next.Idle ends

/-- The action binds one trigger and ends as `bound` tells, or as `free` if it has not bound it. -/
def Binds (trigger : Trigger) (bound free : Except Fault Bool → σ → Prop) : Action σ → Prop
  | finish verdict self => free verdict self
  | bind t next => t = trigger ∧ (next (.ok ())).Idle bound ∧ ∀ e, (next (.error e)).Idle free
  | release _ _ => False
  | enroll _ next => ∀ answer, (next answer).Binds trigger bound free
  | look next => ∀ router, (next router).Binds trigger bound free
  | remark _ next => next.Binds trigger bound free

/-- The action releases one trigger, and ends as told. -/
def Releases (id : TriggerId) (ends : Except Fault Bool → σ → Prop) : Action σ → Prop
  | finish _ _ | bind _ _ => False
  | release i next => i = id ∧ ∀ found, (next found).Idle ends
  | enroll _ next => ∀ answer, (next answer).Releases id ends
  | look next => ∀ router, (next router).Releases id ends
  | remark _ next => next.Releases id ends

end Action

/-- What a structure that owns a trigger, or none, does in a phase. -/
def Owns {σ : Type} (own : σ → Option Trigger) (self : σ) : Phase → Action σ → Prop
  | .load, action =>
    match own self with
    | none => action.Idle fun _ after => own after = none
    | some t => action.Binds t (fun verdict after => verdict = .ok true ∧ own after = some t)
        fun verdict after => verdict ≠ .ok true ∧ own after = some t
  | .unload, action =>
    match own self with
    | none => action.Idle fun _ after => own after = none
    | some t => action.Releases t.id fun _ after => own after = some t
  | .preLoad, action | .postLoad, action | .postUnload, action | .execute, action =>
    action.Idle fun _ after => own after = own self

/-- The structures of a type own what `own` says. -/
def Owning {σ : Type} [Structure σ] (own : σ → Option Trigger) : Prop :=
  ∀ phase path self, Owns own self phase (Structure.act phase path self)

/-- **A handler owns its trigger.** -/
theorem owning_handler : Owning fun h : Handler => some h.trigger := by
  intro phase path self
  cases phase with
  | load => exact ⟨rfl, ⟨rfl, rfl⟩, fun _ => ⟨nofun, rfl⟩⟩
  | unload => exact ⟨rfl, fun _ => rfl⟩
  | preLoad | postLoad | postUnload | execute => exact rfl

/-! ## Actions -/

namespace Runtime

variable {σ : Type}

theorem perform_idle {ends : Except Fault Bool → σ → Prop} : ∀ (action : Action σ)
    (rt : Runtime σ), action.Idle ends →
    (rt.perform action).1.router = rt.router ∧
      ends (rt.perform action).2.1 (rt.perform action).2.2
  | .finish _ _, _, h => ⟨rfl, h⟩
  | .enroll script next, rt, h => by
    obtain ⟨hr, he⟩ := perform_idle (next (rt.enter script).2) (rt.enter script).1 (h _)
    exact ⟨hr.trans (router_enter rt script), he⟩
  | .look next, rt, h => perform_idle (next rt.router) rt (h _)
  | .remark remark next, rt, h => perform_idle next (rt.record [.remarked remark]) h

/-- A trigger that is bound is served at the end. -/
theorem perform_binds {trigger : Trigger} {bound free : Except Fault Bool → σ → Prop} :
    ∀ (action : Action σ) (rt : Runtime σ) {ts : List Trigger}, action.Binds trigger bound free →
    rt.router.Serves ts →
    (bound (rt.perform action).2.1 (rt.perform action).2.2 ∧
        (rt.perform action).1.router.Serves (ts ++ [trigger])) ∨
      (free (rt.perform action).2.1 (rt.perform action).2.2 ∧
        (rt.perform action).1.router.Serves ts)
  | .finish _ _, _, _, h, hs => Or.inr ⟨h, hs⟩
  | .bind t next, rt, ts, ⟨ht, hok, herr⟩, hs => by
    subst ht
    cases hb : rt.router.bind t with
    | error e =>
      have hp : rt.perform (.bind t next) = rt.perform (next (.error e)) := by
        simp only [perform, Runtime.bind, hb]
      obtain ⟨hr, he⟩ := perform_idle _ rt (herr e)
      rw [hp, hr]
      exact Or.inr ⟨he, hs⟩
    | ok answer =>
      obtain ⟨router, calls⟩ := answer
      have hp : rt.perform (.bind t next) = (({ rt with router }.record
          (calls.map Occurrence.host ++ [Occurrence.bound t.name t.id])).perform
            (next (.ok ()))) := by
        simp only [perform, Runtime.bind, hb]
      obtain ⟨hr, he⟩ := perform_idle _ ({ rt with router }.record
          (calls.map Occurrence.host ++ [Occurrence.bound t.name t.id])) hok
      rw [hp, hr]
      exact Or.inl ⟨he, hs.bind hb⟩
  | .enroll script next, rt, _, h, hs => by
    refine perform_binds (next (rt.enter script).2) (rt.enter script).1 (h _) ?_
    rwa [router_enter]
  | .look next, rt, _, h, hs => perform_binds (next rt.router) rt (h _) hs
  | .remark remark next, rt, _, h, hs => perform_binds next (rt.record [.remarked remark]) h hs

theorem perform_releases {id : TriggerId} {ends : Except Fault Bool → σ → Prop} :
    ∀ (action : Action σ) (rt : Runtime σ) {ts : List Trigger}, action.Releases id ends →
    rt.router.Serves ts →
    ends (rt.perform action).2.1 (rt.perform action).2.2 ∧
      (rt.perform action).1.router.Serves (ts.filter fun t => t.id != id)
  | .release i next, rt, ts, ⟨hi, hn⟩, hs => by
    subst hi
    obtain ⟨hr, he⟩ := perform_idle _ (rt.release i).1 (hn (rt.release i).2)
    refine ⟨he, ?_⟩
    show ((rt.release i).1.perform (next (rt.release i).2)).1.router.Serves _
    rw [hr]
    exact hs.release i
  | .enroll script next, rt, _, h, hs => by
    refine perform_releases (next (rt.enter script).2) (rt.enter script).1 (h _) ?_
    rwa [router_enter]
  | .look next, rt, _, h, hs => perform_releases (next rt.router) rt (h _) hs
  | .remark remark next, rt, _, h, hs =>
    perform_releases next (rt.record [.remarked remark]) h hs

end Runtime

/-- Whatever structures do, the catalog of the router is left alone. -/
theorem Runtime.kept_catalog {σ : Type} (catalog : Catalog) :
    Kept fun rt : Runtime σ => rt.router.catalog = catalog where
  record _ _ _ _ h := h
  bind rt trigger h := by
    unfold Runtime.bind
    cases hb : rt.router.bind trigger with
    | error e => exact h
    | ok answer => exact (Router.catalog_bind hb).trans h
  release _ _ h := h
  enter rt script h := (congrArg Router.catalog (router_enter rt script)).trans h

/-! ## Calls -/

/-- The triggers but the one that is owned. -/
def without (owned : Option Trigger) (ts : List Trigger) : List Trigger :=
  ts.filter fun t => owned.all fun o => t.id != o.id

theorem without_none (ts : List Trigger) : without none ts = ts := by
  simp [without]

theorem without_some (o : Trigger) (ts : List Trigger) :
    without (some o) ts = ts.filter fun t => t.id != o.id := rfl

/-- A trigger that is released is taken out from between the others. -/
theorem without_eq {front back : List Trigger} {o : Option Trigger}
    (h : ((front ++ (o.toList ++ back)).map (·.id)).Nodup) :
    without o (front ++ (o.toList ++ back)) = front ++ back := by
  cases o with
  | none => rw [without_none]; rfl
  | some t =>
    have hp := h
    rw [List.map_append, List.nodup_append] at hp
    obtain ⟨-, hback, hne⟩ := hp
    have hb := (List.nodup_cons.1 (show (t.id :: back.map (·.id)).Nodup from hback)).1
    have hfront : front.filter (fun t' => t'.id != t.id) = front :=
      List.filter_eq_self.2 fun t' ht' => by
        have := hne _ (List.mem_map_of_mem ht') t.id (by simp)
        simpa using this
    have hrest : back.filter (fun t' => t'.id != t.id) = back :=
      List.filter_eq_self.2 fun t' ht' => by
        have hid : t'.id ≠ t.id := fun e => hb (by rw [← e]; exact List.mem_map_of_mem ht')
        simpa using hid
    rw [without_some, List.filter_append, hfront, Option.toList_some, List.singleton_append,
      List.filter_cons_of_neg (by simp), hrest]

namespace Call

variable {σ : Type} {own : σ → Option Trigger}

/-- The triggers that members own. -/
def triggers (own : σ → Option Trigger) (ms : List (Member σ)) : List Trigger :=
  ms.filterMap fun m => own m.self

theorem triggers_cons (m : Member σ) (ms : List (Member σ)) :
    triggers own (m :: ms) = (own m.self).toList ++ triggers own ms := by
  rw [triggers, List.filterMap_cons]
  cases own m.self <;> rfl

/-- A trigger that is listed once has one owner. -/
theorem owner_unique {t : Trigger} {m m' : Member σ} : ∀ {ms : List (Member σ)},
    (triggers own ms).Nodup → m ∈ ms → m' ∈ ms → own m.self = some t → own m'.self = some t →
    m = m'
  | first :: ms, hn, hm, hm', hown, hown' => by
    have htail : (triggers own ms).Nodup := by
      refine hn.sublist ?_
      exact (List.sublist_cons_self first ms).filterMap _
    have hfirst : own first.self = some t → t ∉ triggers own ms := by
      intro h
      have hcons : triggers own (first :: ms) = t :: triggers own ms := List.filterMap_cons_some h
      rw [hcons] at hn
      exact (List.nodup_cons.1 hn).1
    have hmem : ∀ {k : Member σ}, k ∈ ms → own k.self = some t → t ∈ triggers own ms :=
      fun hk h => List.mem_filterMap.2 ⟨_, hk, h⟩
    rcases List.mem_cons.1 hm with hm | hm
    · rcases List.mem_cons.1 hm' with hm' | hm'
      · exact hm.trans hm'.symm
      · exact absurd (hmem hm' hown') (hfirst (hm ▸ hown))
    · rcases List.mem_cons.1 hm' with hm' | hm'
      · exact absurd (hmem hm hown) (hfirst (hm' ▸ hown'))
      · exact owner_unique htail hm hm' hown hown'

variable [Structure σ]

theorem self_next (c : Call σ) : c.next.self = c.acted.2.2 :=
  congrArg Member.self c.outcome_spec.next

theorem router_after (c : Call σ) : c.after.router = c.acted.1.router := by
  unfold after
  rcases c.outcome_cases with ⟨-, houtcome⟩ | ⟨-, houtcome⟩
  · rw [houtcome]
  · rw [houtcome]
    rfl

theorem registry_after (c : Call σ) : c.after.registry = c.acted.1.registry := by
  unfold after
  rcases c.outcome_cases with ⟨-, houtcome⟩ | ⟨-, houtcome⟩
  · rw [houtcome]
  · rw [houtcome]
    rfl

/-- In activation a structure stays exactly if its action ends well. -/
theorem accepted_iff (c : Call σ) (h : c.phase.isActivation = true) :
    c.accepted = true ↔ c.acted.2.1 = .ok true := by
  simp [c.outcome_spec.accepted, Accepts, h]

/-- Between loading and unloading a structure leaves the router alone. -/
theorem owning_idle (ho : Owning own) (c : Call σ) (hl : c.phase ≠ .load) (hu : c.phase ≠ .unload) :
    own c.next.self = own c.member.self ∧ c.after.router = c.before.router := by
  have hidle : (Structure.act c.phase c.member.path c.member.self).Idle
      fun _ after => own after = own c.member.self := by
    have h := ho c.phase c.member.path c.member.self
    cases hp : c.phase with
    | load => exact absurd hp hl
    | unload => exact absurd hp hu
    | preLoad | postLoad | postUnload | execute =>
      rw [hp] at h
      exact h
  obtain ⟨hr, he⟩ := Runtime.perform_idle _ c.begun hidle
  exact ⟨(congrArg own c.self_next).trans he, c.router_after.trans hr⟩

/-- A structure that is loaded and stays has bound what it owns, another nothing. -/
theorem owning_load (ho : Owning own) (c : Call σ) (hp : c.phase = .load) {ts : List Trigger}
    (hs : c.before.router.Serves ts) :
    own c.next.self = own c.member.self ∧ c.after.router.Serves
      (ts ++ if c.accepted then (own c.member.self).toList else []) := by
  have h := ho .load c.member.path c.member.self
  rw [c.self_next, c.router_after]
  have hacc := c.accepted_iff (by rw [hp]; rfl)
  unfold acted at hacc ⊢
  rw [hp] at hacc ⊢
  unfold Owns at h
  cases hown : own c.member.self with
  | none =>
    rw [hown] at h
    obtain ⟨hr, he⟩ := Runtime.perform_idle _ c.begun h
    have hbegun : c.begun.router.Serves ts := hs
    refine ⟨he, ?_⟩
    rw [hr]
    simpa using hbegun
  | some t =>
    rw [hown] at h
    rcases Runtime.perform_binds _ c.begun h hs with ⟨⟨hv, he⟩, hs⟩ | ⟨⟨hv, he⟩, hs⟩
    · exact ⟨he, by simpa [hacc.2 hv] using hs⟩
    · have hno : c.accepted = false := by
        rw [Bool.eq_false_iff]
        exact fun ha => hv (hacc.1 ha)
      exact ⟨he, by simpa [hno] using hs⟩

/-- A structure that is unloaded releases what it owns. -/
theorem owning_unload (ho : Owning own) (c : Call σ) (hp : c.phase = .unload) {ts : List Trigger}
    (hs : c.before.router.Serves ts) :
    own c.next.self = own c.member.self ∧
      c.after.router.Serves (without (own c.member.self) ts) := by
  have h := ho .unload c.member.path c.member.self
  rw [c.self_next, c.router_after]
  unfold acted
  rw [hp]
  unfold Owns at h
  cases hown : own c.member.self with
  | none =>
    rw [hown] at h
    obtain ⟨hr, he⟩ := Runtime.perform_idle _ c.begun h
    refine ⟨he, ?_⟩
    rw [hr, without_none]
    exact hs
  | some t =>
    rw [hown] at h
    exact Runtime.perform_releases _ c.begun h hs

/-! ## Activation -/

theorem linked_split : ∀ {calls more : List (Call σ)} {rt last : Runtime σ},
    Linked rt (calls ++ more) last → ∃ mid, Linked rt calls mid ∧ Linked mid more last
  | [], _, rt, _, h => ⟨rt, rfl, h⟩
  | _ :: _, _, _, _, ⟨hb, h⟩ =>
    have ⟨mid, hc, hm⟩ := linked_split h
    ⟨mid, ⟨hb, hc⟩, hm⟩

theorem serves_preLoad (ho : Owning own) {ts : List Trigger} : ∀ {calls : List (Call σ)}
    {rt last : Runtime σ}, Linked rt calls last → (∀ c ∈ calls, c.phase = .preLoad) →
    rt.router.Serves ts → last.router.Serves ts
  | [], _, _, h, _, hs => by
    cases h
    exact hs
  | c :: rest, _, _, ⟨hb, h⟩, hp, hs => by
    subst hb
    have hc := hp c (by simp)
    obtain ⟨-, hr⟩ := c.owning_idle ho (by simp [hc]) (by simp [hc])
    exact serves_preLoad ho h (fun c hc => hp c (by simp [hc])) (hr ▸ hs)

theorem triggers_staying_cons {c : Call σ} {calls : List (Call σ)}
    (h : own c.next.self = own c.member.self) : triggers own (staying (c :: calls))
      = (if c.accepted then (own c.member.self).toList else [])
        ++ triggers own (staying calls) := by
  rw [staying_cons]
  split
  · rw [triggers_cons, h]
  · rfl

/-- Loading adds the triggers of the structures that stay. -/
theorem serves_load (ho : Owning own) : ∀ {calls : List (Call σ)} {rt last : Runtime σ}
    {ts : List Trigger}, Linked rt calls last → (∀ c ∈ calls, c.phase = .load) →
    rt.router.Serves ts → last.router.Serves (ts ++ triggers own (staying calls))
  | [], _, _, _, h, _, hs => by
    cases h
    simpa [staying, triggers] using hs
  | c :: rest, _, _, ts, ⟨hb, h⟩, hp, hs => by
    subst hb
    obtain ⟨hown, hc⟩ := c.owning_load ho (hp c (by simp)) hs
    have hrest := serves_load ho h (fun c hc => hp c (by simp [hc])) hc
    rwa [triggers_staying_cons hown, ← List.append_assoc]

/-- A `postLoad` takes out what its structure owns, if it turns the structure away. -/
theorem serves_done (ho : Owning own) (c : Call σ) (hc : c.phase = .postLoad)
    {front back : List Trigger}
    (hs : c.before.router.Serves (front ++ ((own c.member.self).toList ++ back))) :
    own c.next.self = own c.member.self ∧ c.done.router.Serves
      (front ++ ((if c.accepted then (own c.member.self).toList else []) ++ back)) := by
  obtain ⟨hown, hrouter⟩ := c.owning_idle ho (by simp [hc]) (by simp [hc])
  refine ⟨hown, ?_⟩
  rw [← hrouter] at hs
  cases ha : c.accepted with
  | true =>
    rw [show c.done = c.after by simp [done, refuses, ha]]
    exact hs
  | false =>
    rw [show c.done = c.finishing.after by simp [done, refuses, ha, hc]]
    obtain ⟨-, hu⟩ := c.unloading.owning_unload ho rfl hs
    have hmember : own c.unloading.member.self = own c.member.self := hown
    rw [hmember, without_eq hs.ids] at hu
    rwa [(c.finishing.owning_idle ho (by simp [finishing]) (by simp [finishing])).2]

/-- After `postLoad` only the triggers of the structures that have stayed are left. -/
theorem serves_postLoad (ho : Owning own) : ∀ {calls : List (Call σ)} {rt last : Runtime σ}
    {ts : List Trigger}, Linked rt (calls.flatMap whole) last → (∀ c ∈ calls, c.phase = .postLoad) →
    rt.router.Serves (ts ++ triggers own (calls.map member)) →
    last.router.Serves (ts ++ triggers own (staying calls))
  | [], _, _, _, h, _, hs => by
    cases h
    exact hs
  | c :: rest, _, _, ts, h, hp, hs => by
    rw [List.flatMap_cons] at h
    obtain ⟨mid, hw, h⟩ := linked_split h
    obtain ⟨rfl, rfl⟩ := eq_of_linked_whole hw
    rw [List.map_cons, triggers_cons] at hs
    obtain ⟨hown, hdone⟩ := c.serves_done ho (hp c (by simp)) hs
    rw [← List.append_assoc] at hdone
    have hrest := serves_postLoad ho h (fun c hc => hp c (by simp [hc])) hdone
    rwa [triggers_staying_cons hown, ← List.append_assoc]

end Call

/-- **After an activation** the router serves what it served before, and the triggers of the
structures that have stayed in all phases. -/
theorem Activation.serves {σ : Type} [Structure σ] {own : σ → Option Trigger} (ho : Owning own)
    {rt : Runtime σ} {scripts : List (Script σ)} {pre load post : List (Call σ)}
    (h : Activation rt scripts pre load post) {ts : List Trigger} (hs : rt.router.Serves ts) :
    (rt.activate scripts).1.router.Serves (ts ++ Call.triggers own (Call.staying post)) := by
  obtain ⟨mid, hfirst, hpost⟩ := Call.linked_split h.linked
  obtain ⟨start, hpre, hload⟩ := Call.linked_split hfirst
  have hloaded := Call.serves_load ho hload h.load_phase
    (Call.serves_preLoad ho hpre h.pre_phase hs)
  rw [← h.post_members] at hloaded
  exact Call.serves_postLoad ho hpost h.post_phase hloaded

end EventScripts
