import EventScripts.Proofs.Router.Delivery
/-!
# Triggers of several kinds

A trigger of several kinds should run for an event exactly if it would run when
bound to one of them alone. The router looks for the event's handler list among
the kinds of a trigger, and then for an ancestor of the event's kind among them;
it does not ask that it be the same one. `union_of_kinds_iff` says for which
catalogs that makes no difference.

`SPEC_FULL.md` §8 speaks of the triggers bound to the event's class or to a supertype
that shares its handler list.
-/

namespace EventScripts

/-- The trigger bound to one kind alone. -/
def Trigger.only (t : Trigger) (kind : Kind) : Trigger := { t with kinds := [kind] }

/-- If a kind has an ancestor that is delivered through another list, all kinds that share its own
list are ancestors of it. -/
def Catalog.Unmixed (catalog : Catalog) : Prop :=
  ∀ kind above beside, catalog.contains kind = true → catalog.contains above = true →
    catalog.isA kind above = true → catalog.list? above ≠ catalog.list? kind →
    catalog.list? beside = catalog.list? kind → catalog.isA kind beside = true

namespace Router

/-- The trigger runs when the event is delivered at the tier. -/
def Executes (router : Router) (event : Event) (tier : Tier) (t : Trigger) : Prop :=
  t ∈ (router.dispatch event tier).map (·.trigger)

variable {catalog : Catalog} {event : Event} {tier : Tier} {t : Trigger}

theorem executes_history_iff {ops : List Op} :
    (Op.applyAll { catalog } ops).1.Executes event tier t ↔
      t ∈ due catalog (Op.lasting { catalog } ops) event tier := by
  have htrigger : (fun e : Execution => e.trigger) ∘ run event = id := rfl
  rw [Executes, dispatch_history, List.map_map, htrigger, List.map_id]

/-- When a bound trigger runs: one of its kinds shares the list, and one is an ancestor. -/
theorem mem_due_iff {ts : List Trigger} (ht : t ∈ ts) (hk : catalog.contains event.kind = true)
    (hb : event.blocked = false) (ha : t.accepts event = true) :
    t ∈ due catalog ts event tier ↔ t.tier = tier ∧
      (∃ kind ∈ t.kinds, catalog.list? kind = catalog.list? event.kind) ∧
        ∃ kind ∈ t.kinds, catalog.isA event.kind kind = true := by
  have hdelivers : catalog.delivers event = true := by
    simp [Catalog.delivers, hk, hb]
  rw [due, if_pos hdelivers, List.mem_filter]
  simp only [ht, true_and, Trigger.isDue, ha, Bool.and_true, Bool.and_eq_true, beq_iff_eq,
    List.any_eq_true, and_assoc]

/-- A trigger that can be bound is what binding it to a fresh router leaves. -/
theorem lasting_bind (hb : Bindable catalog [] t) :
    Op.lasting { catalog } [.bind t] = [t] := by
  have hok : (Router.bind { catalog } t).isOk = true := (serves_nil catalog).bind_isOk_iff.2 hb
  simp [Op.lasting, hok]

theorem bindable_only {kind : Kind} (h : catalog.contains kind = true) :
    Bindable catalog [] (t.only kind) := by
  refine ⟨by simp [Trigger.only], fun k hk => ?_, by simp⟩
  rw [List.mem_singleton.1 hk]
  exact h

/-- **A trigger bound to one kind alone** runs for the events of that list whose kind is below. -/
theorem executes_only_iff {kind : Kind} (hkind : catalog.contains kind = true)
    (hk : catalog.contains event.kind = true) (hb : event.blocked = false)
    (ha : t.accepts event = true) :
    (Op.applyAll { catalog } [.bind (t.only kind)]).1.Executes event tier (t.only kind) ↔
      t.tier = tier ∧ catalog.isA event.kind kind = true ∧
        catalog.list? kind = catalog.list? event.kind := by
  have haccepts : (t.only kind).accepts event = true := ha
  rw [executes_history_iff, lasting_bind (bindable_only hkind),
    mem_due_iff List.mem_cons_self hk hb haccepts]
  simp [Trigger.only, and_comm]

/-- After every history, a bound trigger that accepts the event runs exactly if one that is bound
to one of its kinds alone runs. -/
def UnionOfKinds (catalog : Catalog) : Prop :=
  ∀ (ops : List Op) (event : Event) (tier : Tier) (t : Trigger),
    t ∈ Op.lasting { catalog } ops → catalog.contains event.kind = true →
    event.blocked = false → t.accepts event = true →
    ((Op.applyAll { catalog } ops).1.Executes event tier t ↔ ∃ kind ∈ t.kinds,
      (Op.applyAll { catalog } [.bind (t.only kind)]).1.Executes event tier (t.only kind))

/-- A bound trigger has declared kinds. -/
theorem contains_of_lasting {ops : List Op} (ht : t ∈ Op.lasting { catalog } ops) :
    ∀ kind ∈ t.kinds, catalog.contains kind = true := by
  intro kind hkind
  have h := ((serves_history catalog ops).declared t ht).2 kind hkind
  rwa [Op.catalog_applyAll, Catalog.isSome_list?] at h

/-- In an unmixed catalog, a kind that shares the list of the event's kind is an ancestor of it, if
any kind of the trigger is. -/
theorem union_of_unmixed (hu : catalog.Unmixed) : UnionOfKinds catalog := by
  intro ops event tier t ht hk hb ha
  have hdeclared := contains_of_lasting ht
  rw [executes_history_iff, mem_due_iff ht hk hb ha]
  constructor
  · rintro ⟨htier, ⟨beside, hbeside, hshared⟩, above, habove, hisA⟩
    by_cases hother : catalog.list? above = catalog.list? event.kind
    · exact ⟨above, habove, (executes_only_iff (hdeclared above habove) hk hb ha).2
        ⟨htier, hisA, hother⟩⟩
    · have hbelow := hu event.kind above beside hk (hdeclared above habove) hisA hother hshared
      exact ⟨beside, hbeside, (executes_only_iff (hdeclared beside hbeside) hk hb ha).2
        ⟨htier, hbelow, hshared⟩⟩
  · rintro ⟨kind, hkind, hex⟩
    obtain ⟨htier, hisA, hshared⟩ := (executes_only_iff (hdeclared kind hkind) hk hb ha).1 hex
    exact ⟨htier, ⟨kind, hkind, hshared⟩, kind, hkind, hisA⟩

/-- A trigger of two kinds, of which one shares the list and the other is an ancestor, runs; if one
of them alone does, it is both. -/
theorem unmixed_of_union (h : UnionOfKinds catalog) : catalog.Unmixed := by
  intro kind above beside hkind habove hisA hother hshared
  have hbeside : catalog.contains beside = true := by
    rw [← catalog.isSome_list?, hshared, catalog.isSome_list?, hkind]
  let t : Trigger := { id := 1, name := "", script := ⟨""⟩, kinds := [above, beside] }
  let event : Event := { kind }
  have hbound : Op.lasting { catalog } [.bind t] = [t] := by
    refine lasting_bind ⟨by simp [t], ?_, by simp⟩
    intro k hk
    obtain rfl | rfl : k = above ∨ k = beside := by simpa [t] using hk
    · exact habove
    · exact hbeside
  have ht : t ∈ Op.lasting { catalog } [.bind t] := by simp [hbound]
  have hruns : (Op.applyAll { catalog } [.bind t]).1.Executes event t.tier t := by
    rw [executes_history_iff, mem_due_iff ht hkind rfl rfl]
    exact ⟨rfl, ⟨beside, by simp [t], hshared⟩, above, by simp [t], hisA⟩
  obtain ⟨k, hk, halone⟩ := (h _ event t.tier t ht hkind rfl rfl).1 hruns
  obtain ⟨-, hbelow, hlist⟩ :=
    (executes_only_iff (contains_of_lasting ht k hk) hkind rfl rfl).1 halone
  obtain rfl | rfl : k = above ∨ k = beside := by simpa [t] using hk
  · exact absurd hlist hother
  · exact hbelow

/-- **A trigger behaves as the union of its kinds** exactly if the catalog is unmixed. Bound to one
of its kinds alone, it runs for the events of that list whose kind is below. -/
theorem union_of_kinds_iff (catalog : Catalog) :
    (∀ (ops : List Op) (event : Event) (tier : Tier) (t : Trigger),
        t ∈ Op.lasting { catalog } ops → catalog.contains event.kind = true →
        event.blocked = false → t.accepts event = true → ∀ kind ∈ t.kinds,
        ((Op.applyAll { catalog } [.bind (t.only kind)]).1.Executes event tier (t.only kind) ↔
          t.tier = tier ∧ catalog.isA event.kind kind = true ∧
            catalog.list? kind = catalog.list? event.kind)) ∧
    (UnionOfKinds catalog ↔ catalog.Unmixed) := by
  refine ⟨?_, unmixed_of_union, union_of_unmixed⟩
  intro ops event tier t ht hk hb ha kind hkind
  exact executes_only_iff (contains_of_lasting ht kind hkind) hk hb ha

/-- Three nested kinds, of which the middle one has a handler list of its own. -/
def nestedKinds : Catalog where
  entries := [("interact_villager", ⟨some "interact_entity", 1, false⟩),
    ("interact_entity", ⟨some "interact", 1, false⟩), ("interact", ⟨none, 0, false⟩)]
  listCount := 2

/-- A trigger of the outer two kinds. -/
def outerKinds : Trigger where
  id := 1
  name := "outer"
  script := ⟨"a.sk"⟩
  kinds := ["interact", "interact_villager"]

/-- The triggers that run for an event of the middle kind, with one trigger bound. -/
def ranForMiddle (t : Trigger) : List TriggerId :=
  ((Op.applyAll { catalog := nestedKinds } [.bind t]).1.dispatch
    { kind := "interact_entity" } t.tier).map (·.trigger.id)

/-- A trigger of the outer two kinds runs for the middle one, which neither of them does alone. -/
theorem outer_kinds_mix :
    Catalog.build [{ kind := "interact", ownsList := true },
        { kind := "interact_entity", parent := some "interact", ownsList := true },
        { kind := "interact_villager", parent := some "interact_entity" }] = .ok nestedKinds ∧
      ranForMiddle outerKinds = [1] ∧
      ∀ kind ∈ outerKinds.kinds, ranForMiddle (outerKinds.only kind) = [] := by
  refine ⟨rfl, by decide, ?_⟩
  intro kind hkind
  obtain rfl | rfl : kind = "interact" ∨ kind = "interact_villager" := by
    simpa [outerKinds] using hkind
  · decide
  · decide

end Router

end EventScripts
