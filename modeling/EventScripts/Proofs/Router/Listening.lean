import EventScripts.Proofs.Router.History
/-!
# What a router asks of the host

The host is asked to listen on a channel when the first trigger that wants it is
bound, and to stop when the last one is released; so the requests about one
channel alternate. `host_protocol` says so of every history, and that in every
state the host is listening on exactly the channels that some bound trigger
wants.

This is the invariant of `SPEC_FULL.md` §3 on `PriorityBinding`, and the two states of
§4.5.
-/

namespace EventScripts

namespace HostCall

/-- The channel that a request is about. -/
def channel : HostCall → Channel
  | listen c | stop c => c

/-- The requests about one channel. -/
def about (c : Channel) (calls : List HostCall) : List HostCall :=
  calls.filter fun call => call.channel == c

theorem about_append (c : Channel) (calls more : List HostCall) :
    about c (calls ++ more) = about c calls ++ about c more :=
  List.filter_append _ _

/-- Of requests of one sort about channels that differ, at most one is about a channel. -/
theorem about_map {call : Channel → HostCall} (hcall : ∀ c, (call c).channel = c) {c : Channel}
    {chs : List Channel} (h : chs.Nodup) :
    about c (chs.map call) = if c ∈ chs then [call c] else [] := by
  have hfilter : about c (chs.map call) = (chs.filter (· == c)).map call := by
    simp only [about, List.filter_map, Function.comp_def, hcall]
  rw [hfilter, List.filter_beq, h.count]
  split <;> simp

/-- The request that changes whether the host is listening. -/
def next (c : Channel) (listening : Bool) : HostCall := if listening then .stop c else .listen c

/-- Requests about a channel that alternate, each changing whether the host is listening; at first
it is as `before` says, at last as `after`. -/
def Alternates (c : Channel) : (before : Bool) → List HostCall → (after : Bool) → Prop
  | before, [], after => before = after
  | before, call :: rest, after => call = next c before ∧ Alternates c (!before) rest after

theorem Alternates.append {c : Channel} {after : Bool} {more : List HostCall} :
    ∀ {calls : List HostCall} {before mid : Bool}, Alternates c before calls mid →
      Alternates c mid more after → Alternates c before (calls ++ more) after
  | [], _, _, rfl, h' => h'
  | _ :: _, _, _, ⟨hcall, h⟩, h' => ⟨hcall, h.append h'⟩

/-- A request is made exactly if something is to change. -/
theorem alternates_of_change {c : Channel} {before after : Bool} {calls : List HostCall}
    (h : calls = if before = after then [] else [next c before]) :
    Alternates c before calls after := by
  subst h
  cases before <;> cases after <;> simp [Alternates]

/-- Between alternating requests, those to listen are ahead by one exactly if the host is
listening. -/
theorem Alternates.count {c : Channel} {after : Bool} : ∀ {calls : List HostCall} {before : Bool},
    Alternates c before calls after →
      calls.count (.listen c) + before.toNat = calls.count (.stop c) + after.toNat
  | [], _, rfl => by simp
  | call :: rest, before, ⟨hcall, h⟩ => by
    have ih := h.count
    subst hcall
    cases before with
    | false =>
      simp only [next, List.count_cons] at ih ⊢
      simp at ih ⊢
      omega
    | true =>
      simp only [next, List.count_cons] at ih ⊢
      simp at ih ⊢
      omega

theorem count_about {c : Channel} {call : HostCall} (h : call.channel = c) (calls : List HostCall) :
    (about c calls).count call = calls.count call :=
  List.count_filter (by simp [h])

/-- By how many the requests to listen on a channel are ahead of those to stop. -/
def net (c : Channel) (calls : List HostCall) : Int :=
  calls.count (.listen c) - calls.count (.stop c)

theorem net_append (c : Channel) (calls more : List HostCall) :
    net c (calls ++ more) = net c calls + net c more := by
  simp only [net, List.count_append]
  omega

/-- Requests that alternate, and end as they began, come to nothing. -/
theorem Alternates.net_eq_zero {c : Channel} {listening : Bool} {calls : List HostCall}
    (h : Alternates c listening (about c calls) listening) : net c calls = 0 := by
  have hcount := h.count
  have hlisten : (HostCall.listen c).channel = c := rfl
  have hstop : (HostCall.stop c).channel = c := rfl
  rw [count_about hlisten, count_about hstop] at hcount
  unfold net
  omega

end HostCall

namespace Router

open HostCall

/-! ## Who is listened for -/

/-- Some trigger wants the channel. -/
def wanted (catalog : Catalog) (ts : List Trigger) (c : Channel) : Bool :=
  ts.any fun t => t.wants catalog c

variable {router : Router} {ts : List Trigger}

theorem isListening_eq (router : Router) (c : Channel) :
    router.isListening c = decide (c ∈ router.bindings.map (·.channel)) := by
  rw [Bool.eq_iff_iff]
  simp [isListening]

/-- **The host is listening on the channels that are wanted.** -/
theorem Serves.isListening (h : Serves router ts) (c : Channel) :
    router.isListening c = wanted router.catalog ts c := by
  rw [Bool.eq_iff_iff, isListening_eq, decide_eq_true_iff, wanted, List.any_eq_true]
  have hbound := h.bound c
  constructor
  · intro hc
    obtain ⟨b, hb, rfl⟩ := List.mem_map.1 hc
    rw [bound_eq, boundIn_of_mem h.channels hb] at hbound
    obtain ⟨t, rest, ht⟩ := List.exists_cons_of_ne_nil (h.occupied b hb)
    have hmem : t ∈ ts.filter fun t => t.wants router.catalog b.channel := by
      rw [← hbound, ht]
      exact List.mem_cons_self
    exact ⟨t, List.mem_filter.1 hmem⟩
  · rintro ⟨t, ht, hw⟩
    by_contra hc
    have hmem : t ∈ router.bound c := by
      rw [hbound]
      exact List.mem_filter.2 ⟨ht, hw⟩
    rw [bound_eq, boundIn_of_not_mem hc] at hmem
    cases hmem

/-! ## The requests of one operation -/

theorem calls_attach (t : Trigger) (ch : Channel) : ∀ bs : List Binding,
    (attach t ch bs).2 = if ch ∈ bs.map (·.channel) then [] else [.listen ch]
  | [] => rfl
  | b :: bs => by
    unfold attach
    by_cases hb : b.channel = ch
    · simp [hb]
    · simp only [if_neg hb, calls_attach t ch bs, List.map_cons, List.mem_cons, Ne.symm hb,
        false_or]

/-- Binding to several channels asks to listen on those that were not listened on. -/
theorem calls_attachAll (t : Trigger) : ∀ {chs : List Channel} (bs : List Binding), chs.Nodup →
    (attachAll t bs chs).2 = (chs.filter fun ch => ch ∉ bs.map (·.channel)).map .listen
  | [], _, _ => rfl
  | ch :: chs, bs, h => by
    obtain ⟨hn, h⟩ := List.nodup_cons.1 h
    have hrest : (chs.filter fun c => c ∉ (attach t ch bs).1.map (·.channel))
        = chs.filter fun c => c ∉ bs.map (·.channel) := by
      refine List.filter_congr fun c hc => ?_
      have hne : c ≠ ch := by
        rintro rfl
        exact hn hc
      rw [channels_attach]
      split
      · rfl
      · simp [hne]
    simp only [attachAll, calls_attachAll t _ h, hrest, calls_attach, List.filter_cons]
    by_cases hc : ch ∈ bs.map (·.channel)
    · simp [hc]
    · simp [hc]

theorem channels_attachAll (t : Trigger) (c : Channel) : ∀ (chs : List Channel) (bs : List Binding),
    c ∈ (attachAll t bs chs).1.map (·.channel) ↔ c ∈ bs.map (·.channel) ∨ c ∈ chs
  | [], _ => by simp [attachAll]
  | ch :: chs, bs => by
    simp only [attachAll, channels_attachAll t c chs, channels_attach]
    split
    · next hch =>
      constructor
      · rintro (h | h)
        · exact Or.inl h
        · exact Or.inr (List.mem_cons_of_mem _ h)
      · rintro (h | h)
        · exact Or.inl h
        · rcases List.mem_cons.1 h with rfl | h
          · exact Or.inl hch
          · exact Or.inr h
    · simp [or_assoc]

/-- The channels that lose their last trigger are those that are listened on no more. -/
theorem Serves.mem_emptied (h : Serves router ts) (id : TriggerId) (c : Channel) :
    c ∈ ((router.bindings.map (Binding.without id)).filter (·.triggers.isEmpty)).map (·.channel) ↔
      c ∈ router.bindings.map (·.channel) ∧
        c ∉ (router.release id).1.bindings.map (·.channel) := by
  have hrest : ∀ b ∈ router.bindings, b.channel ∈ (router.release id).1.bindings.map (·.channel) ↔
      (Binding.without id b).triggers.isEmpty = false := by
    intro b hb
    constructor
    · intro hc
      obtain ⟨_, hmem, hc⟩ := List.mem_map.1 hc
      obtain ⟨hmem, hfull⟩ := List.mem_filter.1 hmem
      obtain ⟨b', hb', rfl⟩ := List.mem_map.1 hmem
      have hsame : b' = b := List.inj_on_of_nodup_map h.channels hb' hb hc
      subst hsame
      simpa using hfull
    · intro hfull
      exact List.mem_map.2 ⟨Binding.without id b,
        List.mem_filter.2 ⟨List.mem_map_of_mem hb, by simp [hfull]⟩, rfl⟩
  constructor
  · intro hc
    obtain ⟨b', hb', rfl⟩ := List.mem_map.1 hc
    obtain ⟨hb', hempty⟩ := List.mem_filter.1 hb'
    obtain ⟨b, hb, rfl⟩ := List.mem_map.1 hb'
    refine ⟨List.mem_map.2 ⟨b, hb, rfl⟩, fun hleft => ?_⟩
    have hfull := (hrest b hb).1 hleft
    rw [hempty] at hfull
    cases hfull
  · rintro ⟨hc, hleft⟩
    obtain ⟨b, hb, rfl⟩ := List.mem_map.1 hc
    have hempty : (Binding.without id b).triggers.isEmpty = true := by
      simpa using mt (hrest b hb).2 hleft
    exact List.mem_map.2 ⟨Binding.without id b, List.mem_filter.2 ⟨List.mem_map_of_mem hb, hempty⟩, rfl⟩

/-- **The requests of an operation** about a channel: one if what the host is doing is to change,
and none otherwise. -/
theorem Op.alternates_apply (h : Serves router ts) (op : Op) (c : Channel) :
    Alternates c (router.isListening c) (about c (op.apply router).2)
      ((op.apply router).1.isListening c) := by
  cases op with
  | bind t =>
    cases hb : router.bind t with
    | error e =>
      rw [apply_bind_of_error hb]
      exact rfl
    | ok out =>
      obtain ⟨after, calls⟩ := out
      rw [apply_bind_of_ok hb]
      obtain ⟨-, -, lists, hl, rfl, rfl⟩ := bind_eq_ok hb
      obtain ⟨hnodup, -⟩ := channels_listsOf hl
      rw [calls_attachAll t _ hnodup]
      refine alternates_of_change ?_
      rw [about_map (fun _ => rfl) (hnodup.filter _)]
      simp only [isListening_eq, channels_attachAll, List.mem_filter, decide_eq_true_iff, next]
      by_cases hc : c ∈ router.bindings.map (·.channel)
      · simp [hc]
      · by_cases hnew : c ∈ lists.map fun list => (⟨list, t.tier⟩ : Channel)
        · simp [hc, hnew]
        · simp [hc, hnew]
  | release id =>
    have hnodup := h.channels.sublist
      (channels_without_sublist id (·.triggers.isEmpty) router.bindings)
    have hcalls : ((release id).apply router).2
        = (((router.bindings.map (Binding.without id)).filter (·.triggers.isEmpty)).map
            (·.channel)).map .stop := by
      rw [List.map_map]
      rfl
    have hleft : c ∈ (router.release id).1.bindings.map (·.channel) →
        c ∈ router.bindings.map (·.channel) := fun hc =>
      (channels_without_sublist id _ router.bindings).subset hc
    refine alternates_of_change ?_
    rw [hcalls, about_map (fun _ => rfl) hnodup]
    simp only [h.mem_emptied, isListening_eq, apply, next]
    by_cases hc : c ∈ router.bindings.map (·.channel)
    · by_cases hr : c ∈ (router.release id).1.bindings.map (·.channel)
      · simp [hc, hr]
      · simp [hc, hr]
    · simp [hc, mt hleft hc]

/-! ## Histories -/

theorem Op.alternates_applyAll (c : Channel) : ∀ (ops : List Op) {router : Router}
    {ts : List Trigger}, Serves router ts →
    Alternates c (router.isListening c) (about c (applyAll router ops).2)
      ((applyAll router ops).1.isListening c)
  | [], _, _, _ => rfl
  | op :: rest, router, ts, h => by
    have hstep := alternates_apply h op c
    have hserves : Serves (op.apply router).1 _ := serves_applyAll [op] h
    have hrest := alternates_applyAll c rest hserves
    simp only [applyAll, about_append]
    exact hstep.append hrest

/-- Erasing repetitions leaves none. The recursion is on the length, for the rest is filtered. -/
theorem nodup_eraseDups (ids : List TriggerId) : ids.eraseDups.Nodup := by
  cases ids with
  | nil => simp
  | cons id rest =>
    rw [List.eraseDups_cons, List.nodup_cons]
    exact ⟨by simp [List.mem_eraseDups], nodup_eraseDups (rest.filter fun other => !other == id)⟩
termination_by ids.length
decreasing_by
  exact Nat.lt_succ_of_le (List.length_filter_le _ rest)

/-- The identities of the bound triggers, each once, are those of the triggers served. -/
theorem Serves.triggerIds_perm (h : Serves router ts) : router.triggerIds.Perm (ts.map (·.id)) := by
  refine (List.perm_ext_iff_of_nodup (nodup_eraseDups _) h.ids).2 fun id => ?_
  simp only [List.mem_eraseDups, List.mem_flatMap, List.mem_map]
  constructor
  · rintro ⟨b, hb, t, ht, rfl⟩
    exact ⟨t, h.mem_iff_binding.2 ⟨b, hb, ht⟩, rfl⟩
  · rintro ⟨t, ht, rfl⟩
    obtain ⟨b, hb, htb⟩ := h.mem_iff_binding.1 ht
    exact ⟨b, hb, t, htb, rfl⟩

/-- What holds between a router and its host when `ts` are the triggers bound and `calls` all that
has been asked of the host. -/
structure HostProtocol (catalog : Catalog) (ts : List Trigger) (router : Router)
    (calls : List HostCall) : Prop where
  /-- The requests about a channel alternate; the first is to listen. -/
  alternates : ∀ c, Alternates c false (about c calls) (router.isListening c)
  /-- One more is to listen if some trigger wants the channel, and as many are to stop if not. -/
  difference : ∀ c, (calls.count (.listen c) : Int) - calls.count (.stop c)
    = if wanted catalog ts c then 1 else 0
  listening : ∀ c, router.isListening c = wanted catalog ts c
  /-- The channels that are counted are those that are wanted, each once. -/
  channels : ∃ chs : List Channel, chs.Nodup ∧ (∀ c, c ∈ chs ↔ wanted catalog ts c = true) ∧
    router.channelCount = chs.length
  /-- No binding is without triggers or has one of them twice. -/
  bindings : ∀ b ∈ router.bindings, b.triggers ≠ [] ∧ (b.triggers.map (·.id)).Nodup
  triggers : (ts.map (·.id)).Nodup ∧ router.triggerCount = ts.length
  /-- Another trigger would be bound exactly if it can be besides those. -/
  answers : (∀ t, (router.bind t).isOk = true ↔ Bindable catalog ts t) ∧
    ∀ id, (router.release id).2.2 = true ↔ ∃ t ∈ ts, t.id = id

/-- **The host protocol of a router** holds after every history: at every moment, the triggers that
are bound are those that the history up to then has bound for good. -/
theorem host_protocol (catalog : Catalog) (ops : List Op) :
    HostProtocol catalog (Op.lasting { catalog } ops) (Op.applyAll { catalog } ops).1
      (Op.applyAll { catalog } ops).2 := by
  have h := serves_history catalog ops
  have hcatalog : (Op.applyAll { catalog } ops).1.catalog = catalog :=
    Op.catalog_applyAll ops { catalog }
  have halternates : ∀ c, Alternates c false (about c (Op.applyAll { catalog } ops).2)
      ((Op.applyAll { catalog } ops).1.isListening c) := fun c =>
    Op.alternates_applyAll c ops (serves_nil catalog)
  have hlistening : ∀ c, (Op.applyAll { catalog } ops).1.isListening c
      = wanted catalog (Op.lasting { catalog } ops) c := fun c => by
    rw [h.isListening, hcatalog]
  constructor
  case alternates => exact halternates
  case listening => exact hlistening
  case difference =>
    intro c
    have hcount := (halternates c).count
    have hlisten : (HostCall.listen c).channel = c := rfl
    have hstop : (HostCall.stop c).channel = c := rfl
    rw [count_about hlisten, count_about hstop, hlistening] at hcount
    cases hw : wanted catalog (Op.lasting { catalog } ops) c with
    | false =>
      simp only [hw, Bool.toNat_false, Bool.false_eq_true, if_false] at hcount ⊢
      omega
    | true =>
      simp only [hw, Bool.toNat_false, Bool.toNat_true, if_true] at hcount ⊢
      omega
  case channels =>
    refine ⟨_, h.channels, fun c => ?_, (List.length_map _).symm⟩
    rw [← hlistening, isListening_eq, decide_eq_true_iff]
  case bindings =>
    intro b hb
    refine ⟨h.occupied b hb, ?_⟩
    rw [← boundIn_of_mem h.channels hb, ← bound_eq, h.bound]
    exact h.ids.sublist (List.filter_sublist.map _)
  case triggers =>
    refine ⟨h.ids, ?_⟩
    rw [triggerCount, h.triggerIds_perm.length_eq, List.length_map]
  case answers =>
    refine ⟨fun t => ?_, fun id => h.contains_iff⟩
    rw [h.bind_isOk_iff, hcatalog]

end Router

end EventScripts
