import EventScripts.Proofs.Router.Listening
/-!
# Binding and taking it back

A trigger that cannot be bound leaves no trace: the kinds are looked up before
anything is bound. One that has been bound is released without a trace, too: it
stands last in each list that it is in, so the others are as they were before,
and the lists that were made for it are those that are left empty
(`release_attachAll`). `reversible_bind` puts both together.

`SPEC_FULL.md` §4.5 lets the host's binding go with the last trigger of a pair.
-/

namespace EventScripts

namespace HostCall

/-- Requests to listen are cancelled out by as many requests to stop. -/
theorem net_cancel (c : Channel) : ∀ chs : List Channel,
    net c (chs.map listen ++ chs.map stop) = 0
  | [] => rfl
  | ch :: chs => by
    have ih := net_cancel c chs
    simp only [net, List.map_cons, List.cons_append, List.count_append, List.count_cons] at ih ⊢
    by_cases hc : ch = c
    · simp [hc]
      omega
    · simp [hc]
      omega

end HostCall

namespace Router

/-! ## Refusals -/

/-- Why a trigger cannot be bound. Of several reasons the first counts, and of several kinds that
are not declared the first as well. -/
inductive Refusal (router : Router) (t : Trigger) : BindError → Prop
  | noKinds : t.kinds = [] → Refusal router t (.noKinds t.name)
  | alreadyBound : t.kinds ≠ [] → router.contains t.id = true → Refusal router t (.alreadyBound t.name)
  | unknownKind {known behind : List Kind} {kind : Kind} : router.contains t.id = false →
    t.kinds = known ++ kind :: behind → (∀ k ∈ known, router.catalog.contains k = true) →
    router.catalog.contains kind = false → Refusal router t (.unknownKind t.name kind)

/-- The kind that is named is the first that is not declared. -/
theorem listsOf_eq_error {catalog : Catalog} {kind : Kind} {kinds : List Kind} :
    listsOf catalog kinds = .error kind ↔ ∃ known behind, kinds = known ++ kind :: behind ∧
      (∀ k ∈ known, catalog.contains k = true) ∧ catalog.contains kind = false := by
  induction kinds with
  | nil => simp [listsOf]
  | cons k kinds ih =>
    rw [listsOf]
    cases hk : catalog.list? k with
    | none =>
      have hunknown : catalog.contains k = false := by rw [← catalog.isSome_list?, hk]; rfl
      constructor
      · rintro ⟨⟩
        exact ⟨[], kinds, rfl, by simp, hunknown⟩
      · rintro ⟨known, behind, hkinds, hknown, -⟩
        cases known with
        | nil => rw [(List.cons.inj hkinds).1]
        | cons first known =>
          have hfirst := hknown first List.mem_cons_self
          rw [← (List.cons.inj hkinds).1, hunknown] at hfirst
          cases hfirst
    | some list =>
      have hdeclared : catalog.contains k = true := by rw [← catalog.isSome_list?, hk]; rfl
      have hmap : (listsOf catalog kinds).map (Ordered.insert compare list) = .error kind ↔
          listsOf catalog kinds = .error kind := by
        cases listsOf catalog kinds <;> simp [Except.map]
      rw [hmap, ih]
      constructor
      · rintro ⟨known, behind, rfl, hknown, hunknown⟩
        exact ⟨k :: known, behind, rfl, List.forall_mem_cons.2 ⟨hdeclared, hknown⟩, hunknown⟩
      · rintro ⟨known, behind, hkinds, hknown, hunknown⟩
        cases known with
        | nil =>
          rw [(List.cons.inj hkinds).1, hunknown] at hdeclared
          cases hdeclared
        | cons first known =>
          exact ⟨known, behind, (List.cons.inj hkinds).2, fun k' hk' => hknown k' (by simp [hk']),
            hunknown⟩

/-- **Binding fails exactly for one of the reasons**, and with the error that names it. -/
theorem bind_eq_error {router : Router} {t : Trigger} {e : BindError} :
    router.bind t = .error e ↔ Refusal router t e := by
  unfold Router.bind
  by_cases hkinds : t.kinds = []
  · rw [if_pos (by simpa using hkinds)]
    constructor
    · rintro ⟨⟩
      exact .noKinds hkinds
    · rintro (_ | ⟨hne, -⟩ | ⟨-, hsplit, -, -⟩)
      · rfl
      · exact absurd hkinds hne
      · simp [hkinds] at hsplit
  · rw [if_neg (by simpa using hkinds)]
    cases hc : router.contains t.id with
    | true =>
      constructor
      · rintro ⟨⟩
        exact .alreadyBound hkinds hc
      · rintro (hnil | - | ⟨hfree, -, -, -⟩)
        · exact absurd hnil hkinds
        · rfl
        · rw [hc] at hfree
          cases hfree
    | false =>
      cases hl : listsOf router.catalog t.kinds with
      | error kind =>
        obtain ⟨known, behind, hsplit, hknown, hunknown⟩ := listsOf_eq_error.1 hl
        constructor
        · rintro ⟨⟩
          exact .unknownKind hc hsplit hknown hunknown
        · rintro (hnil | ⟨-, hbound⟩ | ⟨-, hsplit', hknown', hunknown'⟩)
          · exact absurd hnil hkinds
          · rw [hc] at hbound
            cases hbound
          · cases hl.symm.trans (listsOf_eq_error.2 ⟨_, _, hsplit', hknown', hunknown'⟩)
            rfl
      | ok lists =>
        constructor
        · nofun
        · rintro (hnil | ⟨-, hbound⟩ | ⟨-, hsplit, hknown, hunknown⟩)
          · exact absurd hnil hkinds
          · rw [hc] at hbound
            cases hbound
          · cases hl.symm.trans (listsOf_eq_error.2 ⟨_, _, hsplit, hknown, hunknown⟩)

/-! ## Releasing what has been bound -/

/-- The bindings that are left when a trigger has been released. -/
def leftover (id : TriggerId) (bs : List Binding) : List Binding :=
  (bs.map (Binding.without id)).filter (!·.triggers.isEmpty)

/-- The channels that lose their last trigger. -/
def emptied (id : TriggerId) (bs : List Binding) : List Channel :=
  ((bs.map (Binding.without id)).filter (·.triggers.isEmpty)).map (·.channel)

theorem release_eq (router : Router) (id : TriggerId) :
    router.release id = ({ router with bindings := leftover id router.bindings },
      (emptied id router.bindings).map .stop, router.contains id) := by
  rw [emptied, List.map_map]
  rfl

theorem leftover_cons (id : TriggerId) (b : Binding) (bs : List Binding) :
    leftover id (b :: bs) = leftover id [b] ++ leftover id bs := by
  simp only [leftover, List.map_cons, List.map_nil, List.filter_cons, List.filter_nil]
  split <;> rfl

theorem emptied_cons (id : TriggerId) (b : Binding) (bs : List Binding) :
    emptied id (b :: bs) = emptied id [b] ++ emptied id bs := by
  simp only [emptied, List.map_cons, List.map_nil, List.filter_cons, List.filter_nil]
  split <;> rfl

/-- A trigger that is added last to a binding is taken out of it again. -/
theorem without_concat (t : Trigger) (b : Binding) :
    Binding.without t.id ⟨b.channel, b.triggers ++ [t]⟩ = Binding.without t.id b := by
  simp [Binding.without]

/-- Bindings in which a trigger does not occur stay as they are when it is released. -/
theorem release_of_free {id : TriggerId} {bs : List Binding}
    (hfree : ∀ b ∈ bs, ∀ t ∈ b.triggers, t.id ≠ id) (hoccupied : ∀ b ∈ bs, b.triggers ≠ []) :
    leftover id bs = bs ∧ emptied id bs = [] := by
  have hsame : bs.map (Binding.without id) = bs := by
    refine (List.map_congr_left fun b hb => ?_).trans (List.map_id bs)
    have hall : b.triggers.filter (fun t => t.id != id) = b.triggers :=
      List.filter_eq_self.2 fun t ht => by simpa using hfree b hb t ht
    rw [Binding.without, hall]
    rfl
  constructor
  · rw [leftover, hsame, List.filter_eq_self]
    exact fun b hb => by simpa using hoccupied b hb
  · rw [emptied, hsame, List.map_eq_nil_iff, List.filter_eq_nil_iff]
    exact fun b hb => by simpa using hoccupied b hb

/-- A trigger that has been bound to one channel is released without a trace: what is left is what
was left before, and the binding that was made for it, if there is one, is emptied. -/
theorem release_attach (t : Trigger) (ch : Channel) : ∀ bs : List Binding, ∃ opened : List Channel,
    (attach t ch bs).2 = opened.map .listen ∧
      leftover t.id (attach t ch bs).1 = leftover t.id bs ∧
      emptied t.id (attach t ch bs).1 = emptied t.id bs ++ opened
  | [] => ⟨[ch], rfl, by simp [attach, leftover, Binding.without],
      by simp [attach, emptied, Binding.without]⟩
  | b :: bs => by
    unfold attach
    by_cases hb : b.channel = ch
    · subst hb
      have hfirst := without_concat t b
      refine ⟨[], by rw [if_pos rfl]; rfl, ?_, ?_⟩
      · simp only [if_true, leftover, List.map_cons, hfirst]
      · simp only [if_true, emptied, List.map_cons, hfirst, List.append_nil]
    · obtain ⟨opened, hcalls, hleft, hempty⟩ := release_attach t ch bs
      simp only [if_neg hb]
      refine ⟨opened, hcalls, ?_, ?_⟩
      · rw [leftover_cons, hleft, ← leftover_cons]
      · rw [emptied_cons, hempty, ← List.append_assoc, ← emptied_cons]

/-- **A trigger that has been bound to several channels** is released from them without a trace, in
whatever lists it stands with others. -/
theorem release_attachAll (t : Trigger) : ∀ (chs : List Channel) (bs : List Binding),
    ∃ opened : List Channel, (attachAll t bs chs).2 = opened.map .listen ∧
      leftover t.id (attachAll t bs chs).1 = leftover t.id bs ∧
      emptied t.id (attachAll t bs chs).1 = emptied t.id bs ++ opened
  | [], bs => ⟨[], rfl, rfl, (List.append_nil _).symm⟩
  | ch :: chs, bs => by
    obtain ⟨opened, hcalls, hleft, hempty⟩ := release_attach t ch bs
    obtain ⟨more, hmore, hleft', hempty'⟩ := release_attachAll t chs (attach t ch bs).1
    refine ⟨opened ++ more, ?_, hleft'.trans hleft, ?_⟩
    · simp only [attachAll, hcalls, hmore, List.map_append]
    · rw [← List.append_assoc, ← hempty]
      exact hempty'

variable {router : Router} {ts : List Trigger}

/-- Releasing what is not bound does nothing. -/
theorem Serves.release_of_not_bound (h : Serves router ts) {id : TriggerId}
    (hid : router.contains id = false) : router.release id = (router, [], false) := by
  have hfree : ∀ b ∈ router.bindings, ∀ t ∈ b.triggers, t.id ≠ id := by
    intro b hb t ht he
    rw [h.contains_iff.2 ⟨t, h.mem_iff_binding.2 ⟨b, hb, ht⟩, he⟩] at hid
    cases hid
  obtain ⟨hleft, hempty⟩ := release_of_free hfree h.occupied
  rw [release_eq, hleft, hempty, hid]
  rfl

/-- **Releasing what has just been bound** gives the router back, and the host is asked to stop on
the channels on which it has been asked to listen. -/
theorem Serves.release_bind (h : Serves router ts) {t : Trigger} {after : Router}
    {calls : List HostCall} (hb : router.bind t = .ok (after, calls)) :
    ∃ opened : List Channel, calls = opened.map .listen ∧
      after.release t.id = (router, opened.map .stop, true) := by
  have hbound : after.contains t.id = true := (h.bind hb).contains_iff.2 ⟨t, by simp, rfl⟩
  obtain ⟨-, hnew, lists, -, rfl, rfl⟩ := bind_eq_ok hb
  obtain ⟨opened, hcalls, hleft, hempty⟩ := release_attachAll t
    (lists.map fun list => (⟨list, t.tier⟩ : Channel)) router.bindings
  -- before it was bound, releasing it would have done nothing
  have hnothing := h.release_of_not_bound hnew
  rw [release_eq, hnew] at hnothing
  obtain ⟨hrouter, hstops⟩ := Prod.mk.inj hnothing
  have hbefore : emptied t.id router.bindings = [] := List.map_eq_nil_iff.1 (Prod.mk.inj hstops).1
  refine ⟨opened, hcalls, ?_⟩
  rw [release_eq, hbound, hempty, hbefore, List.nil_append]
  exact Prod.ext ((congrArg (fun bs => { router with bindings := bs }) hleft).trans hrouter) rfl

/-! ## Histories -/

/-- What it takes to bind a trigger in a router whose host has been asked for something, and what is
left of it when it is released. -/
structure Reversible (router : Router) (asked : List HostCall) (t : Trigger) : Prop where
  refused_iff : ∀ e, router.bind t = .error e ↔ Refusal router t e
  /-- Nothing is bound and nothing asked of the host if the trigger is refused. -/
  refused : ∀ e, Refusal router t e → (Op.bind t).apply router = (router, [])
  /-- All bindings are as they were if it is bound and released, and for each channel the host has
  been asked to listen as many more times than to stop as before. -/
  undone : ∀ after calls, router.bind t = .ok (after, calls) → ∃ stops,
    after.release t.id = (router, stops, true) ∧
      ∀ c, HostCall.net c (asked ++ calls ++ stops) = HostCall.net c asked
  /-- To release what is not bound changes nothing and asks nothing of the host. -/
  unbound : ∀ id, router.contains id = false → router.release id = (router, [], false)

/-- **Binding is atomic, and releasing undoes it**, after every history. -/
theorem reversible_bind (catalog : Catalog) (ops : List Op) (t : Trigger) :
    Reversible (Op.applyAll { catalog } ops).1 (Op.applyAll { catalog } ops).2 t := by
  have h := serves_history catalog ops
  constructor
  case refused_iff => exact fun e => bind_eq_error
  case refused => exact fun e he => Op.apply_bind_of_error (bind_eq_error.2 he)
  case undone =>
    intro after calls hb
    obtain ⟨opened, rfl, hrelease⟩ := h.release_bind hb
    refine ⟨opened.map .stop, hrelease, fun c => ?_⟩
    rw [List.append_assoc, HostCall.net_append, HostCall.net_cancel, Int.add_zero]
  case unbound => exact fun id hid => h.release_of_not_bound hid

end Router

end EventScripts
