import EventScripts.Router.Basic
import Mathlib.Logic.Function.Basic
/-!
# Routers with other identities

A router tells triggers by their identities, and does nothing else with these.
So if other identities are given to all triggers, none of them twice, whatever
is bound and released comes to the same but for the identities (`bind_renamed`,
`release_renamed`).
-/

namespace EventScripts

variable (ids : TriggerId → TriggerId)

/-- The trigger with another identity. -/
def Trigger.renamed (trigger : Trigger) : Trigger := { trigger with id := ids trigger.id }

def Binding.renamed (b : Binding) : Binding :=
  { b with triggers := b.triggers.map (Trigger.renamed ids) }

namespace Router

def renamed (router : Router) : Router :=
  { router with bindings := router.bindings.map (Binding.renamed ids) }

theorem attach_renamed (trigger : Trigger) (channel : Channel) : ∀ bindings : List Binding,
    attach (trigger.renamed ids) channel (bindings.map (Binding.renamed ids))
      = ((attach trigger channel bindings).1.map (Binding.renamed ids),
        (attach trigger channel bindings).2)
  | [] => rfl
  | b :: rest => by
    have ih := attach_renamed trigger channel rest
    have hchannel : (b.renamed ids).channel = b.channel := rfl
    simp only [List.map_cons, attach, hchannel]
    split
    · simp [Binding.renamed]
    · simp [ih]

theorem attachAll_renamed (trigger : Trigger) : ∀ (channels : List Channel)
    (bindings : List Binding),
    attachAll (trigger.renamed ids) (bindings.map (Binding.renamed ids)) channels
      = ((attachAll trigger bindings channels).1.map (Binding.renamed ids),
        (attachAll trigger bindings channels).2)
  | [], _ => rfl
  | channel :: rest, bindings => by
    simp only [attachAll, attach_renamed, attachAll_renamed trigger rest]

variable {ids}

/-- Whoever is bound and keeps its identity stays as it is. -/
theorem renamed_of_kept {router : Router} (h : ∀ id, router.contains id = true → ids id = id) :
    router.renamed ids = router := by
  have htrigger : ∀ b ∈ router.bindings, ∀ t ∈ b.triggers, t.renamed ids = t := by
    intro b hb t ht
    have hid : ids t.id = t.id :=
      h t.id (List.any_eq_true.2 ⟨b, hb, List.any_eq_true.2 ⟨t, ht, beq_self_eq_true _⟩⟩)
    simp only [Trigger.renamed, hid]
  have hbinding : ∀ b ∈ router.bindings, b.renamed ids = b := by
    intro b hb
    simp only [Binding.renamed, List.map_congr_left (htrigger b hb), List.map_id']
  simp only [renamed, List.map_congr_left hbinding, List.map_id']

variable (hids : Function.Injective ids) (router : Router)

include hids

theorem contains_renamed (id : TriggerId) :
    (router.renamed ids).contains (ids id) = router.contains id := by
  simp only [contains, renamed, List.any_map, Function.comp_def, Binding.renamed, Trigger.renamed]
  simp only [beq_eq_decide, hids.eq_iff]

/-- **Binding** comes to the same. -/
theorem bind_renamed (trigger : Trigger) : (router.renamed ids).bind (trigger.renamed ids)
    = (router.bind trigger).map fun out => (out.1.renamed ids, out.2) := by
  have hcontains := contains_renamed hids router trigger.id
  have hid : (trigger.renamed ids).id = ids trigger.id := rfl
  have hsame : (trigger.renamed ids).kinds = trigger.kinds ∧
      (trigger.renamed ids).name = trigger.name ∧ (trigger.renamed ids).tier = trigger.tier ∧
      (router.renamed ids).catalog = router.catalog := ⟨rfl, rfl, rfl, rfl⟩
  simp only [bind, hid, hcontains, hsame]
  split
  · rfl
  · split
    · rfl
    · cases listsOf router.catalog trigger.kinds with
      | error kind => rfl
      | ok lists =>
        have hattach := attachAll_renamed ids trigger (lists.map fun list => ⟨list, trigger.tier⟩)
          router.bindings
        simp only [renamed, hattach]
        rfl

theorem without_renamed (id : TriggerId) (b : Binding) :
    Binding.without (ids id) (b.renamed ids) = (Binding.without id b).renamed ids := by
  simp only [Binding.without, Binding.renamed, List.filter_map, Function.comp_def, Trigger.renamed,
    bne, beq_eq_decide, hids.eq_iff]

/-- **Releasing** comes to the same. -/
theorem release_renamed (id : TriggerId) : (router.renamed ids).release (ids id)
    = ((router.release id).1.renamed ids, (router.release id).2) := by
  have hempty : ∀ b : Binding, (b.renamed ids).triggers.isEmpty = b.triggers.isEmpty := by
    intro b
    simp [Binding.renamed]
  have hmap : (router.renamed ids).bindings.map (Binding.without (ids id))
      = (router.bindings.map (Binding.without id)).map (Binding.renamed ids) := by
    simp only [renamed, List.map_map]
    exact List.map_congr_left fun b _ => without_renamed hids id b
  simp only [release, contains_renamed hids, hmap]
  refine Prod.ext ?_ (Prod.ext ?_ rfl)
  · simp only [renamed, List.filter_map, Function.comp_def, hempty]
  · simp only [List.filter_map, List.map_map, Function.comp_def, hempty]
    rfl

end Router

end EventScripts
