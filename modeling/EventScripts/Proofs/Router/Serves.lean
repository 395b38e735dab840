import EventScripts.Proofs.Ordered
import EventScripts.Router.Basic
import Mathlib.Data.List.Nodup
/-!
# What a router serves

A router with its bindings stands for a list of triggers, in the order in which
they were bound: each is bound to the channels that it wants, once, and to no
other. `Serves` says so. Binding adds one trigger at the end and releasing takes
one out.
-/

namespace EventScripts

/-- The channel is the handler list of one of the trigger's kinds, at its tier. -/
def Trigger.wants (catalog : Catalog) (t : Trigger) (c : Channel) : Bool :=
  c.tier == t.tier && t.kinds.any fun kind => catalog.list? kind == some c.list

namespace Router

/-- The router serves exactly the triggers. -/
structure Serves (router : Router) (ts : List Trigger) : Prop where
  ids : (ts.map (·.id)).Nodup
  bound : ∀ c, router.bound c = ts.filter fun t => t.wants router.catalog c
  /-- Each listens to something, and only to what is declared. -/
  declared : ∀ t ∈ ts, t.kinds ≠ [] ∧ ∀ kind ∈ t.kinds, (router.catalog.list? kind).isSome = true
  channels : (router.bindings.map (·.channel)).Nodup
  occupied : ∀ b ∈ router.bindings, b.triggers ≠ []

theorem serves_nil (catalog : Catalog) : Serves { catalog } [] :=
  ⟨List.nodup_nil, fun _ => rfl, by simp, List.nodup_nil, by simp⟩

/-! ## The lists of some kinds -/

theorem compare_nat_eq {a b : Nat} : compare a b = .eq ↔ a = b := Std.compare_eq_iff_eq

theorem contains_compare {a : Nat} {ns : List Nat} :
    Ordered.contains compare a ns = true ↔ a ∈ ns := by
  simp [Ordered.contains_eq_true_iff]

/-- The lists of some kinds are those lists, each once; every kind has one. -/
theorem listsOf_spec {catalog : Catalog} : ∀ {kinds : List Kind} {lists : List Nat},
    listsOf catalog kinds = .ok lists →
    (∀ n, n ∈ lists ↔ ∃ kind ∈ kinds, catalog.list? kind = some n) ∧
      Ordered.Sorted compare lists ∧ ∀ kind ∈ kinds, (catalog.list? kind).isSome = true
  | [], lists, h => by
    cases h
    simp [Ordered.Sorted]
  | kind :: kinds, lists, h => by
    unfold listsOf at h
    cases hk : catalog.list? kind with
    | none =>
      rw [hk] at h
      cases h
    | some list =>
      rw [hk] at h
      cases hr : listsOf catalog kinds with
      | error e =>
        rw [hr] at h
        cases h
      | ok rest =>
        rw [hr] at h
        cases h
        obtain ⟨hmem, hsorted, hsome⟩ := listsOf_spec hr
        refine ⟨fun n => ?_, Ordered.sorted_insert hsorted, ?_⟩
        · rw [← contains_compare, Ordered.contains_insert, contains_compare, compare_nat_eq, hmem]
          simp [hk, eq_comm]
        · intro k hmem
          rcases List.mem_cons.1 hmem with rfl | hmem
          · simp [hk]
          · exact hsome k hmem

/-! ## Bindings -/

/-- The triggers bound to a channel. -/
def boundIn (bs : List Binding) (c : Channel) : List Trigger :=
  ((bs.find? fun b => b.channel == c).map (·.triggers)).getD []

theorem boundIn_cons (b : Binding) (bs : List Binding) (c : Channel) :
    boundIn (b :: bs) c = if b.channel = c then b.triggers else boundIn bs c := by
  simp only [boundIn, List.find?_cons]
  by_cases h : b.channel = c
  · simp [h]
  · rw [beq_false_of_ne h, if_neg h]

theorem boundIn_of_not_mem {c : Channel} : ∀ {bs : List Binding}, c ∉ bs.map (·.channel) →
    boundIn bs c = []
  | [], _ => rfl
  | b :: bs, h => by
    simp only [List.map_cons, List.mem_cons, not_or] at h
    rw [boundIn_cons, if_neg (Ne.symm h.1), boundIn_of_not_mem h.2]

theorem boundIn_of_mem {b : Binding} : ∀ {bs : List Binding}, (bs.map (·.channel)).Nodup → b ∈ bs →
    boundIn bs b.channel = b.triggers
  | b' :: bs, h, hb => by
    obtain ⟨hn, h⟩ := List.nodup_cons.1 h
    rw [boundIn_cons]
    rcases List.mem_cons.1 hb with rfl | hb
    · rw [if_pos rfl]
    · rw [if_neg, boundIn_of_mem h hb]
      intro he
      refine hn ?_
      simp only [he]
      exact List.mem_map_of_mem hb

theorem mem_boundIn {t : Trigger} {c : Channel} : ∀ {bs : List Binding}, t ∈ boundIn bs c →
    ∃ b ∈ bs, t ∈ b.triggers
  | [], h => by cases h
  | b :: bs, h => by
    rw [boundIn_cons] at h
    split at h
    · exact ⟨b, by simp, h⟩
    · obtain ⟨b', hb', ht⟩ := mem_boundIn h
      exact ⟨b', by simp [hb'], ht⟩

/-- Binding to one channel adds the trigger there, and nothing elsewhere. -/
theorem boundIn_attach (t : Trigger) (ch c : Channel) : ∀ bs : List Binding,
    boundIn (attach t ch bs).1 c = if c = ch then boundIn bs c ++ [t] else boundIn bs c
  | [] => by
    simp only [attach, boundIn_cons]
    by_cases h : c = ch
    · simp [h, boundIn]
    · simp [h, Ne.symm h, boundIn]
  | b :: bs => by
    unfold attach
    by_cases hb : b.channel = ch
    · rw [if_pos hb, boundIn_cons, boundIn_cons]
      by_cases h : c = ch
      · simp [h, hb]
      · simp [h, Ne.symm h, hb]
    · rw [if_neg hb]
      simp only [boundIn_cons, boundIn_attach t ch c bs]
      by_cases h : b.channel = c
      · have hne : c ≠ ch := fun e => hb (h.trans e)
        simp [h, hne]
      · simp [h]

theorem channels_attach (t : Trigger) (ch : Channel) : ∀ bs : List Binding,
    (attach t ch bs).1.map (·.channel)
      = if ch ∈ bs.map (·.channel) then bs.map (·.channel) else bs.map (·.channel) ++ [ch]
  | [] => rfl
  | b :: bs => by
    unfold attach
    by_cases hb : b.channel = ch
    · simp [hb]
    · rw [if_neg hb]
      simp only [List.map_cons, channels_attach t ch bs, List.mem_cons, Ne.symm hb, false_or]
      split <;> rfl

theorem nodup_channels_attach (t : Trigger) (ch : Channel) {bs : List Binding}
    (h : (bs.map (·.channel)).Nodup) : ((attach t ch bs).1.map (·.channel)).Nodup := by
  rw [channels_attach]
  split
  · exact h
  · next hn =>
    rw [List.nodup_append]
    refine ⟨h, by simp, fun c hc c' hc' he => hn ?_⟩
    rw [← List.mem_singleton.1 hc', ← he]
    exact hc

theorem occupied_attach (t : Trigger) (ch : Channel) : ∀ {bs : List Binding},
    (∀ b ∈ bs, b.triggers ≠ []) → ∀ b ∈ (attach t ch bs).1, b.triggers ≠ []
  | [], _ => by simp [attach]
  | b :: bs, h => by
    unfold attach
    by_cases hb : b.channel = ch
    · rw [if_pos hb]
      intro b' hb'
      rcases List.mem_cons.1 hb' with rfl | hb'
      · simp
      · exact h b' (by simp [hb'])
    · rw [if_neg hb]
      intro b' hb'
      rcases List.mem_cons.1 hb' with rfl | hb'
      · exact h b' (by simp)
      · exact occupied_attach t ch (fun b hb => h b (by simp [hb])) b' hb'

/-- Binding to several channels adds the trigger once in each. -/
theorem boundIn_attachAll (t : Trigger) (c : Channel) : ∀ {chs : List Channel} (bs : List Binding),
    chs.Nodup →
    boundIn (attachAll t bs chs).1 c = if c ∈ chs then boundIn bs c ++ [t] else boundIn bs c
  | [], _, _ => by simp [attachAll]
  | ch :: chs, bs, h => by
    obtain ⟨hn, h⟩ := List.nodup_cons.1 h
    simp only [attachAll]
    rw [boundIn_attachAll t c _ h, boundIn_attach]
    by_cases hc : c = ch
    · rw [hc]
      simp [hn]
    · simp [hc]

theorem nodup_channels_attachAll (t : Trigger) : ∀ (chs : List Channel) {bs : List Binding},
    (bs.map (·.channel)).Nodup → ((attachAll t bs chs).1.map (·.channel)).Nodup
  | [], _, h => h
  | ch :: chs, _, h => nodup_channels_attachAll t chs (nodup_channels_attach t ch h)

theorem occupied_attachAll (t : Trigger) : ∀ (chs : List Channel) {bs : List Binding},
    (∀ b ∈ bs, b.triggers ≠ []) → ∀ b ∈ (attachAll t bs chs).1, b.triggers ≠ []
  | [], _, h => h
  | ch :: chs, _, h => occupied_attachAll t chs (occupied_attach t ch h)

/-- Bindings from which a trigger has been taken out keep their channels. -/
theorem channels_without_sublist (id : TriggerId) (p : Binding → Bool) (bs : List Binding) :
    (((bs.map (Binding.without id)).filter p).map (·.channel)).Sublist (bs.map (·.channel)) := by
  have hsub := (List.filter_sublist (p := p) (l := bs.map (Binding.without id))).map (·.channel)
  rwa [List.map_map] at hsub

/-- Releasing takes the trigger out of every channel. -/
theorem boundIn_release (id : TriggerId) (c : Channel) : ∀ {bs : List Binding},
    (bs.map (·.channel)).Nodup →
    boundIn ((bs.map (Binding.without id)).filter fun b => !b.triggers.isEmpty) c
      = (boundIn bs c).filter fun t => t.id != id
  | [], _ => rfl
  | b :: bs, h => by
    obtain ⟨hn, h⟩ := List.nodup_cons.1 h
    have ih := boundIn_release id c h
    rw [List.map_cons, List.filter_cons, boundIn_cons]
    by_cases hc : b.channel = c
    · rw [if_pos hc]
      split
      · rw [boundIn_cons, if_pos (show (Binding.without id b).channel = c from hc)]
        rfl
      · next he =>
        rw [ih, boundIn_of_not_mem (hc ▸ hn)]
        have : (Binding.without id b).triggers = [] := by simpa using he
        exact this.symm
    · rw [if_neg hc]
      split
      · rw [boundIn_cons, if_neg (show ¬(Binding.without id b).channel = c from hc), ih]
      · exact ih

/-! ## Binding and releasing -/

variable {router : Router} {ts : List Trigger}

theorem bound_eq (router : Router) (c : Channel) : router.bound c = boundIn router.bindings c := rfl

/-- The triggers served are those that are bound to some channel. -/
theorem Serves.mem_iff (h : Serves router ts) {t : Trigger} :
    t ∈ ts ↔ ∃ c, t ∈ router.bound c := by
  constructor
  · intro ht
    obtain ⟨hkinds, hsome⟩ := h.declared t ht
    obtain ⟨kind, kinds, hk⟩ := List.exists_cons_of_ne_nil hkinds
    obtain ⟨list, hlist⟩ := Option.isSome_iff_exists.1 (hsome kind (by simp [hk]))
    refine ⟨⟨list, t.tier⟩, ?_⟩
    rw [h.bound]
    exact List.mem_filter.2 ⟨ht, by simp [Trigger.wants, hk, hlist]⟩
  · rintro ⟨c, hc⟩
    rw [h.bound] at hc
    exact (List.mem_filter.1 hc).1

/-- They are those that occur in some binding. -/
theorem Serves.mem_iff_binding (h : Serves router ts) {t : Trigger} :
    t ∈ ts ↔ ∃ b ∈ router.bindings, t ∈ b.triggers := by
  rw [h.mem_iff]
  constructor
  · rintro ⟨c, hc⟩
    exact mem_boundIn hc
  · rintro ⟨b, hb, ht⟩
    refine ⟨b.channel, ?_⟩
    rw [bound_eq, boundIn_of_mem h.channels hb]
    exact ht

theorem Serves.contains_iff (h : Serves router ts) {id : TriggerId} :
    router.contains id = true ↔ ∃ t ∈ ts, t.id = id := by
  simp only [contains, List.any_eq_true, beq_iff_eq]
  constructor
  · rintro ⟨b, hb, t, ht, rfl⟩
    exact ⟨t, h.mem_iff_binding.2 ⟨b, hb, ht⟩, rfl⟩
  · rintro ⟨t, ht, rfl⟩
    obtain ⟨b, hb, htb⟩ := h.mem_iff_binding.1 ht
    exact ⟨b, hb, t, htb, rfl⟩

/-- A trigger that is served is bound once to the channels that it wants, and to no other. -/
theorem Serves.count_bound (h : Serves router ts) {t : Trigger} (ht : t ∈ ts) (c : Channel) :
    ((router.bound c).map (·.id)).count t.id = if t.wants router.catalog c then 1 else 0 := by
  rw [h.bound]
  split
  · next hw =>
    refine List.count_eq_one_of_mem (h.ids.sublist (List.filter_sublist.map _)) ?_
    exact List.mem_map_of_mem (List.mem_filter.2 ⟨ht, hw⟩)
  · next hw =>
    refine List.count_eq_zero_of_not_mem fun hmem => hw ?_
    obtain ⟨t', ht', he⟩ := List.mem_map.1 hmem
    obtain ⟨hin, hw'⟩ := List.mem_filter.1 ht'
    rwa [List.inj_on_of_nodup_map h.ids hin ht he] at hw'

/-- What binding does when it succeeds. -/
theorem bind_eq_ok {t : Trigger} {after : Router} {calls : List HostCall}
    (hb : router.bind t = .ok (after, calls)) :
    t.kinds ≠ [] ∧ router.contains t.id = false ∧
      ∃ lists, listsOf router.catalog t.kinds = .ok lists ∧ after = { router with
          bindings := (attachAll t router.bindings (lists.map fun list => ⟨list, t.tier⟩)).1 } ∧
        calls = (attachAll t router.bindings (lists.map fun list => ⟨list, t.tier⟩)).2 := by
  unfold Router.bind at hb
  split at hb
  · cases hb
  · next hkinds =>
    split at hb
    · cases hb
    · next hnew =>
      cases hl : listsOf router.catalog t.kinds with
      | error e =>
        rw [hl] at hb
        cases hb
      | ok lists =>
        rw [hl] at hb
        cases hb
        exact ⟨by simpa using hkinds, by simpa using hnew, lists, rfl, rfl, rfl⟩

theorem catalog_bind {t : Trigger} {after : Router} {calls : List HostCall}
    (hb : router.bind t = .ok (after, calls)) : after.catalog = router.catalog := by
  obtain ⟨-, -, lists, -, rfl, -⟩ := bind_eq_ok hb
  rfl

/-- The channels that a trigger is bound to are those that it wants, each once. -/
theorem channels_listsOf {catalog : Catalog} {t : Trigger} {lists : List Nat}
    (hl : listsOf catalog t.kinds = .ok lists) :
    (lists.map fun list => (⟨list, t.tier⟩ : Channel)).Nodup ∧
      ∀ c : Channel, c ∈ lists.map (fun list => (⟨list, t.tier⟩ : Channel)) ↔
        t.wants catalog c = true := by
  obtain ⟨hmem, hsorted, -⟩ := listsOf_spec hl
  constructor
  · rw [List.Nodup, List.pairwise_map]
    refine hsorted.ne.imp fun hne he => hne ?_
    rw [compare_nat_eq]
    exact congrArg Channel.list he
  · intro c
    simp only [Trigger.wants, Bool.and_eq_true, beq_iff_eq, List.any_eq_true]
    constructor
    · intro hc
      obtain ⟨list, hlist, rfl⟩ := List.mem_map.1 hc
      exact ⟨rfl, (hmem list).1 hlist⟩
    · rintro ⟨htier, hkind⟩
      exact List.mem_map.2 ⟨c.list, (hmem c.list).2 hkind, by rw [← htier]⟩

/-- **Binding**: one trigger more, at the end. -/
theorem Serves.bind (h : Serves router ts) {t : Trigger} {after : Router} {calls : List HostCall}
    (hb : router.bind t = .ok (after, calls)) : Serves after (ts ++ [t]) := by
  obtain ⟨hkinds, hnew, lists, hl, rfl, -⟩ := bind_eq_ok hb
  obtain ⟨hnodup, hwants⟩ := channels_listsOf hl
  refine ⟨?_, fun c => ?_, ?_, ?_, ?_⟩
  · rw [List.map_append, List.nodup_append]
    refine ⟨h.ids, by simp, fun id hid id' hid' he => ?_⟩
    obtain ⟨t', ht', rfl⟩ := List.mem_map.1 hid
    have hcontained : router.contains t.id = true :=
      h.contains_iff.2 ⟨t', ht', by simpa using he.trans (List.mem_singleton.1 hid')⟩
    rw [hnew] at hcontained
    cases hcontained
  · rw [bound_eq, boundIn_attachAll t c _ hnodup, ← bound_eq, h.bound, List.filter_append]
    by_cases hw : t.wants router.catalog c = true
    · rw [if_pos ((hwants c).2 hw)]
      simp [hw]
    · rw [if_neg fun hc => hw ((hwants c).1 hc)]
      simp [hw]
  · intro t' ht'
    rcases List.mem_append.1 ht' with ht' | ht'
    · exact h.declared t' ht'
    · rw [List.mem_singleton.1 ht']
      exact ⟨hkinds, (listsOf_spec hl).2.2⟩
  · exact nodup_channels_attachAll t _ h.channels
  · exact occupied_attachAll t _ h.occupied

theorem listsOf_of_declared {catalog : Catalog} : ∀ {kinds : List Kind},
    (∀ kind ∈ kinds, (catalog.list? kind).isSome = true) →
    ∃ lists, listsOf catalog kinds = .ok lists
  | [], _ => ⟨[], rfl⟩
  | kind :: kinds, h => by
    obtain ⟨list, hlist⟩ := Option.isSome_iff_exists.1 (h kind List.mem_cons_self)
    obtain ⟨lists, hlists⟩ := listsOf_of_declared fun k hk => h k (List.mem_cons_of_mem _ hk)
    exact ⟨_, by rw [listsOf, hlist]; simp only [hlists]; rfl⟩

/-- A new trigger that listens to what is declared can be bound. -/
theorem Serves.exists_bind (h : Serves router ts) {t : Trigger} (hnew : ∀ t' ∈ ts, t'.id ≠ t.id)
    (hkinds : t.kinds ≠ []) (hsome : ∀ kind ∈ t.kinds, (router.catalog.list? kind).isSome = true) :
    ∃ after calls, router.bind t = .ok (after, calls) := by
  have hnotBound : router.contains t.id = false := by
    rw [← Bool.not_eq_true, h.contains_iff]
    rintro ⟨t', ht', hid⟩
    exact hnew t' ht' hid
  obtain ⟨lists, hlists⟩ := listsOf_of_declared hsome
  exact ⟨_, _, by simp only [Router.bind, hnotBound, hlists, List.isEmpty_iff, hkinds]; rfl⟩

/-- **Releasing**: the trigger of that identity is gone, the others are left in order. -/
theorem Serves.release (h : Serves router ts) (id : TriggerId) :
    Serves (router.release id).1 (ts.filter fun t => t.id != id) := by
  refine ⟨h.ids.sublist (List.filter_sublist.map _), fun c => ?_, fun t ht => ?_, ?_, ?_⟩
  · rw [bound_eq]
    show boundIn ((router.bindings.map (Binding.without id)).filter _) c = _
    rw [boundIn_release id c h.channels, ← bound_eq, h.bound, List.filter_filter,
      List.filter_filter]
    exact List.filter_congr fun t _ => Bool.and_comm _ _
  · exact h.declared t (List.mem_filter.1 ht).1
  · exact h.channels.sublist (channels_without_sublist id _ router.bindings)
  · intro b hb
    have := (List.mem_filter.1 hb).2
    simpa using this

end Router

end EventScripts
