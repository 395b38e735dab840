import EventScripts.Proofs.Router.Serves
/-!
# The history of a router

The operations on a router as data, so that a history is a list of them. The
triggers that a history leaves bound, `Op.lasting`, are read off the history
alone: they were bound with success and not released after that. The router
serves exactly these, in the order in which they were bound (`serves_history`).
-/

namespace EventScripts.Router

/-- An operation on a router. -/
inductive Op where
  | bind (trigger : Trigger)
  | release (id : TriggerId)

/-- A trigger can be bound besides others: it has kinds, all of them declared, and no other has
its identity. -/
def Bindable (catalog : Catalog) (ts : List Trigger) (t : Trigger) : Prop :=
  t.kinds ≠ [] ∧ (∀ kind ∈ t.kinds, catalog.contains kind = true) ∧ ∀ u ∈ ts, u.id ≠ t.id

namespace Op

/-- The router after an operation, and what it asks of the host. -/
def apply (router : Router) : Op → Router × List HostCall
  | bind t =>
    match router.bind t with
    | .ok (after, calls) => (after, calls)
    | .error _ => (router, [])
  | release id => ((router.release id).1, (router.release id).2.1)

/-- The router after a history, and all that it has asked of the host. -/
def applyAll (router : Router) : List Op → Router × List HostCall
  | [] => (router, [])
  | op :: rest =>
    let (after, calls) := op.apply router
    let (last, more) := applyAll after rest
    (last, calls ++ more)

/-- Whether an operation releases an identity. -/
def releases (id : TriggerId) : Op → Bool
  | bind _ => false
  | release i => i == id

/-- The triggers that a history binds for good: each was bound with success, and no later operation
releases it. They come in the order in which they were bound. -/
def lasting (router : Router) : List Op → List Trigger
  | [] => []
  | bind t :: rest =>
    let later := lasting ((bind t).apply router).1 rest
    if (router.bind t).isOk && !rest.any (releases t.id) then t :: later else later
  | release id :: rest => lasting ((release id).apply router).1 rest

end Op

/-! ## When a trigger is bound -/

variable {router : Router} {ts : List Trigger}

theorem listsOf_isOk_iff {catalog : Catalog} : ∀ {kinds : List Kind},
    (listsOf catalog kinds).isOk = true ↔ ∀ kind ∈ kinds, catalog.contains kind = true
  | [] => by simp [listsOf, Except.isOk, Except.toBool]
  | kind :: kinds => by
    have ih : (listsOf catalog kinds).isOk = true ↔ _ := listsOf_isOk_iff
    rw [List.forall_mem_cons, ← ih, ← catalog.isSome_list?, listsOf]
    cases catalog.list? kind with
    | none => simp [Except.isOk, Except.toBool]
    | some list => cases listsOf catalog kinds <;> simp [Except.map, Except.isOk, Except.toBool]

/-- **A trigger is bound exactly if it can be** besides those that are bound. -/
theorem Serves.bind_isOk_iff (h : Serves router ts) {t : Trigger} :
    (router.bind t).isOk = true ↔ Bindable router.catalog ts t := by
  have hfree : router.contains t.id = false ↔ ∀ u ∈ ts, u.id ≠ t.id := by
    rw [Bool.eq_false_iff, Ne, h.contains_iff]
    simp
  unfold Bindable
  rw [← hfree, ← listsOf_isOk_iff]
  unfold Router.bind
  by_cases hkinds : t.kinds = []
  · simp [hkinds, Except.isOk, Except.toBool]
  · cases hc : router.contains t.id with
    | true => simp [hkinds, Except.isOk, Except.toBool]
    | false =>
      cases hl : listsOf router.catalog t.kinds <;>
        simp [hkinds, Except.isOk, Except.toBool]

/-! ## What a history leaves -/

namespace Op

theorem apply_bind_of_ok {t : Trigger} {after : Router} {calls : List HostCall}
    (h : router.bind t = .ok (after, calls)) : (bind t).apply router = (after, calls) := by
  simp [apply, h]

theorem apply_bind_of_error {t : Trigger} {e : BindError} (h : router.bind t = .error e) :
    (bind t).apply router = (router, []) := by
  simp [apply, h]

theorem catalog_apply (router : Router) (op : Op) : (op.apply router).1.catalog = router.catalog := by
  cases op with
  | bind t =>
    cases hb : router.bind t with
    | error e => rw [apply_bind_of_error hb]
    | ok out => rw [apply_bind_of_ok hb, catalog_bind hb]
  | release id => rfl

theorem catalog_applyAll : ∀ (ops : List Op) (router : Router),
    (applyAll router ops).1.catalog = router.catalog
  | [], _ => rfl
  | op :: rest, router => (catalog_applyAll rest (op.apply router).1).trans (catalog_apply router op)

/-- The triggers of a list that no operation of a history releases. -/
def spared (ops : List Op) (ts : List Trigger) : List Trigger :=
  ts.filter fun t => !ops.any (releases t.id)

theorem spared_nil (ts : List Trigger) : spared [] ts = ts := by simp [spared]

theorem spared_bind (t : Trigger) (rest : List Op) (ts : List Trigger) :
    spared (bind t :: rest) ts = spared rest ts := by
  simp [spared, releases]

theorem spared_release (id : TriggerId) (rest : List Op) (ts : List Trigger) :
    spared (release id :: rest) ts = spared rest (ts.filter fun t => t.id != id) := by
  simp only [spared, List.filter_filter, List.any_cons, releases]
  refine List.filter_congr fun t _ => ?_
  rw [Bool.not_or, Bool.and_comm, BEq.comm]
  rfl

/-- What a router serves after a history: what it served before and no operation has released,
and behind it what the history binds for good. -/
theorem serves_applyAll : ∀ (ops : List Op) {router : Router} {ts : List Trigger},
    Serves router ts → Serves (applyAll router ops).1 (spared ops ts ++ lasting router ops)
  | [], _, ts, h => by simpa [spared_nil, lasting, applyAll] using h
  | release id :: rest, router, ts, h => by
    rw [spared_release, lasting]
    exact serves_applyAll rest (h.release id)
  | bind t :: rest, router, ts, h => by
    rw [spared_bind, lasting]
    cases hb : router.bind t with
    | error e =>
      have hnot : ((Except.error e : Except BindError (Router × List HostCall)).isOk
          && !rest.any (releases t.id)) = false := rfl
      have hrest := serves_applyAll rest h
      simp only [applyAll, apply_bind_of_error hb, hnot, Bool.false_eq_true, if_false]
      exact hrest
    | ok out =>
      have hrest := serves_applyAll rest (h.bind hb)
      have hok : ((Except.ok out : Except BindError (Router × List HostCall)).isOk
          && !rest.any (releases t.id)) = !rest.any (releases t.id) := rfl
      simp only [applyAll, apply_bind_of_ok hb, hok]
      rw [spared, List.filter_append, List.append_assoc] at hrest
      by_cases hr : rest.any (releases t.id) = true
      · simpa [hr, spared] using hrest
      · simpa [hr, spared] using hrest

end Op

/-- **A router serves what its history has bound for good**, in the order of the history. -/
theorem serves_history (catalog : Catalog) (ops : List Op) :
    Serves (Op.applyAll { catalog } ops).1 (Op.lasting { catalog } ops) := by
  have h := Op.serves_applyAll ops (serves_nil catalog)
  rwa [Op.spared, List.filter_nil, List.nil_append] at h

end EventScripts.Router
