import EventScripts.Demo.Grammar
import EventScripts.Proofs.Loader.Construction
import EventScripts.Proofs.Loader.RoundTrip
/-!
# Batches of handlers

A handler is turned away only if its trigger cannot be bound. In a batch in
which no identity is given twice and every trigger listens to something, and
only to what is declared, all of them stay: activation leaves the scripts as
they were constructed (`activate_handlers`). The demonstration grammar makes
only such triggers (`Demo.faithful_grammar`), and so what a batch enters is what
has been constructed of it (`entering_constructed`).
-/

namespace EventScripts

/-- The triggers of the handlers of some scripts, in their order. -/
def triggersOf (scripts : List (Script Handler)) : List Trigger :=
  scripts.flatMap fun s => s.structures.map (·.trigger)

theorem owned_handlers (scripts : List (Script Handler)) :
    Runtime.owned (fun h : Handler => some h.trigger) scripts = triggersOf scripts := by
  simp only [Runtime.owned, triggersOf]
  congr 1
  funext s
  exact congrFun List.filterMap_eq_map s.structures

/-- The triggers can be bound one after another, behind those that are served. -/
structure Bindable (catalog : Catalog) (served ts : List Trigger) : Prop where
  ids : ((served ++ ts).map (·.id)).Nodup
  declared : ∀ t ∈ ts, t.kinds ≠ [] ∧ ∀ kind ∈ t.kinds, (catalog.list? kind).isSome = true

variable {catalog : Catalog} {served ts : List Trigger}

theorem Bindable.tail {t : Trigger} (h : Bindable catalog served (t :: ts)) :
    Bindable catalog (served ++ [t]) ts where
  ids := by
    rw [← List.append_cons]
    exact h.ids
  declared := fun t' ht' => h.declared t' (List.mem_cons_of_mem t ht')

theorem Bindable.exists_bind {router : Router} {t : Trigger} (hs : router.Serves served)
    (h : Bindable router.catalog served (t :: ts)) :
    ∃ after calls, router.bind t = .ok (after, calls) := by
  have hnew : ∀ t' ∈ served, t'.id ≠ t.id := by
    have hids := h.ids
    rw [List.map_append, List.nodup_append] at hids
    exact fun t' ht' => hids.2.2 _ (List.mem_map_of_mem ht') _ (by simp)
  obtain ⟨hkinds, hsome⟩ := h.declared t List.mem_cons_self
  exact hs.exists_bind hnew hkinds hsome

/-! ## Activation -/

namespace Call

/-- The call leaves its member in place as it is. -/
structure Stays (c : Call Handler) : Prop where
  accepted : c.accepted = true
  next : c.next = c.member

theorem staying_of_stays {calls : List (Call Handler)} (h : ∀ c ∈ calls, c.Stays) :
    staying calls = calls.map member := by
  rw [staying, List.filter_eq_self.2 fun c hc => (h c hc).accepted]
  exact List.map_congr_left fun c hc => (h c hc).next

/-- Nothing happens to a handler before it is loaded, nor after it. -/
theorem stays_of_idle {c : Call Handler} (h : c.phase = .preLoad ∨ c.phase = .postLoad) :
    c.Stays := by
  obtain ⟨phase, member, before⟩ := c
  rcases h with h | h
  all_goals
    simp only at h
    subst h
    exact ⟨rfl, rfl⟩

theorem stays_of_bind {c : Call Handler} (hp : c.phase = .load) {after : Router}
    {calls : List HostCall}
    (hb : c.before.router.bind c.member.self.trigger = .ok (after, calls)) : c.Stays := by
  obtain ⟨phase, member, before⟩ := c
  simp only at hp hb
  subst hp
  have hcalled : (before.call .load member.path member.self).2 = (true, member.self) := by
    simp only [Runtime.call, Structure.act, Handler.act, Runtime.perform, Runtime.bind,
      Runtime.record, hb, Bool.true_or, if_true]
  constructor
  case accepted => rw [accepted, outcome, hcalled]
  case next => rw [next, outcome, hcalled]

/-- Handlers whose triggers can be bound one after another all stay. -/
theorem stays_load : ∀ {calls : List (Call Handler)} {rt last : Runtime Handler}
    {served : List Trigger}, Linked rt calls last → (∀ c ∈ calls, c.phase = .load) →
    rt.router.Serves served →
    Bindable rt.router.catalog served (calls.map (·.member.self.trigger)) →
    ∀ c ∈ calls, c.Stays
  | [], _, _, _, _, _, _, _ => fun c hc => absurd hc List.not_mem_nil
  | first :: rest, rt, last, served, ⟨hb, hl⟩, hp, hs, h => by
    subst hb
    have hphase := hp first List.mem_cons_self
    obtain ⟨after, calls, hbind⟩ := h.exists_bind hs
    have hfirst : first.Stays := stays_of_bind hphase hbind
    -- the next one finds the trigger of this one bound behind the others
    have hserves := (first.owning_load owning_handler hphase hs).2
    rw [hfirst.accepted, if_pos rfl, Option.toList_some] at hserves
    have hcatalog : first.after.router.catalog = first.before.router.catalog :=
      (Runtime.kept_catalog _).call first.phase first.member.path first.member.self rfl
    have hrest := stays_load hl (fun c hc => hp c (List.mem_cons_of_mem _ hc)) hserves
      (hcatalog ▸ h.tail)
    intro c hc
    rcases List.mem_cons.1 hc with rfl | hc
    · exact hfirst
    · exact hrest c hc

end Call

namespace Member

variable {σ : Type}

/-- Scripts that keep all their members stay as they are. -/
theorem group_ofBatch (scripts : List (Script σ)) :
    group 0 scripts (ofBatch scripts) = scripts :=
  ((grouped_ofBatch scripts 0).eq_group rfl).symm

/-- Members in the order of their places are told by which they are. -/
theorem eq_of_perm_of_precedes {ms others : List (Member σ)} (h : ms.Perm others)
    (hms : ms.Pairwise Precedes) (hothers : others.Pairwise Precedes) : ms = others := by
  refine h.eq_of_pairwise (fun a b _ _ hab hba => ?_) hms hothers
  unfold Precedes at hab hba
  omega

end Member

/-- **Handlers that can be bound all stay**, and so do the scripts as they are. -/
theorem Runtime.activate_handlers {rt : Runtime Handler} {scripts : List (Script Handler)}
    (hs : rt.router.Serves served)
    (h : Bindable rt.router.catalog served (triggersOf scripts)) :
    (rt.activate scripts).2 = scripts := by
  obtain ⟨pre, load, post, hact⟩ := exists_activation rt scripts
  have hpre : Call.staying pre = pre.map Call.member :=
    Call.staying_of_stays fun c hc => Call.stays_of_idle (Or.inl (hact.pre_phase c hc))
  have hmembers : load.map Call.member = Member.ofBatch scripts := by
    refine Member.eq_of_perm_of_precedes ?_ hact.load_order (Member.pairwise_ofBatch scripts)
    exact hact.load_members.trans (hpre ▸ hact.pre_members)
  -- they are loaded in the order of their triggers
  have hbindable : Bindable rt.router.catalog served (load.map (·.member.self.trigger)) := by
    have htriggers : load.map (·.member.self.trigger) = triggersOf scripts := by
      have hself := (Member.grouped_ofBatch scripts 0).flatMap_structures
      rw [triggersOf, ← List.map_flatMap, hself]
      show _ = ((Member.ofBatch scripts).map (·.self)).map (·.trigger)
      rw [← hmembers, List.map_map, List.map_map]
      rfl
    rwa [htriggers]
  obtain ⟨mid, hfirst, -⟩ := Call.linked_split hact.linked
  obtain ⟨start, hprepared, hloaded⟩ := Call.linked_split hfirst
  have hcatalog : start.router.catalog = rt.router.catalog :=
    Call.kept_linked (kept_catalog _) hprepared rfl
  have hload : Call.staying load = load.map Call.member :=
    Call.staying_of_stays <| Call.stays_load hloaded hact.load_phase
      (Call.serves_preLoad owning_handler hprepared hact.pre_phase hs) (hcatalog ▸ hbindable)
  have hpost : Call.staying post = post.map Call.member :=
    Call.staying_of_stays fun c hc => Call.stays_of_idle (Or.inr (hact.post_phase c hc))
  rw [hact.result, hpost, hact.post_members, hload, hmembers, Member.group_ofBatch]

/-! ## Grammars -/

/-- What the grammar makes of a block has the identity that it is given, and listens to something
that is declared, and to nothing else. -/
structure Grammar.Faithful (grammar : Grammar Handler) : Prop where
  id : ∀ {catalog path id node handler},
    Construct.structure? (grammar.compile catalog path id node) = some handler →
    handler.trigger.id = id
  declared : ∀ {catalog path id node handler},
    Construct.structure? (grammar.compile catalog path id node) = some handler →
    handler.trigger.kinds ≠ [] ∧
      ∀ kind ∈ handler.trigger.kinds, (catalog.list? kind).isSome = true

namespace Demo

theorem Header.kinds_ne_nil {key : String} {header : Header} (h : Header.read key = .ok header) :
    header.kinds ≠ [] := by
  unfold Header.read at h
  split at h
  · cases h
  · split at h
    · cases h
    · split at h
      · cases h
      · next hkinds =>
        cases h
        exact fun hnil => hkinds (List.isEmpty_iff.2 hnil)

theorem trigger_eq_ok {catalog : Catalog} {script : Path} {id : TriggerId} {node : Node}
    {t : Trigger} (h : trigger catalog script id node = .ok t) :
    t.id = id ∧ t.kinds ≠ [] ∧ ∀ kind ∈ t.kinds, (catalog.list? kind).isSome = true := by
  cases node with
  | entry line key => cases h
  | block line key children =>
    simp only [trigger] at h
    cases hr : Header.read key with
    | error e =>
      rw [hr] at h
      cases h
    | ok header =>
      simp only [hr] at h
      split at h
      · cases h
      · next hfind =>
        cases hbody : statements script children with
        | error e =>
          rw [hbody] at h
          cases h
        | ok body =>
          rw [hbody] at h
          cases h
          refine ⟨rfl, Header.kinds_ne_nil hr, fun kind hk => ?_⟩
          rw [Catalog.isSome_list?]
          simpa using List.find?_eq_none.1 hfind kind hk

/-- **The demonstration grammar is faithful.** -/
theorem faithful_grammar : grammar.Faithful := by
  have htrigger : ∀ {catalog path id node handler},
      Construct.structure? (grammar.compile catalog path id node) = some handler →
      trigger catalog path id node = .ok handler.trigger := by
    intro catalog path id node handler h
    simp only [grammar, Construct.structure?] at h
    cases ht : trigger catalog path id node with
    | error e =>
      rw [ht] at h
      cases h
    | ok t =>
      rw [ht] at h
      cases h
      rfl
  exact ⟨fun h => (trigger_eq_ok (htrigger h)).1, fun h => (trigger_eq_ok (htrigger h)).2⟩

end Demo

/-! ## Construction -/

namespace Construct

variable {grammar : Grammar Handler}

theorem structuresOf_cons {σ : Type} (b : Node × Compiled σ) (blocks : List (Node × Compiled σ)) :
    structuresOf (b :: blocks) = (structure? b.2).toList ++ structuresOf blocks := by
  rw [structuresOf, List.filterMap_cons]
  cases structure? b.2 <;> rfl

theorem identities_eq {σ : Type} (compiled : Compiled σ) :
    identities compiled = (structure? compiled).toList.length := by
  rw [identities]
  cases structure? compiled <;> rfl

/-- The identities of a file are given out one after another. -/
theorem ids_compileAll (hg : grammar.Faithful) (catalog : Catalog) (path : Path) :
    ∀ (first : Nat) (nodes : List Node),
    (structuresOf (compileAll grammar catalog path first nodes)).map (·.trigger.id)
      = List.range' first (structuresOf (compileAll grammar catalog path first nodes)).length
  | _, [] => rfl
  | first, node :: rest => by
    have ih := ids_compileAll hg catalog path
      (first + identities (grammar.compile catalog path first node)) rest
    rw [compileAll, structuresOf_cons, List.map_append, ih, List.length_append, identities_eq]
    cases hs : structure? (grammar.compile catalog path first node) with
    | none => simp
    | some handler =>
      have hid := hg.id hs
      simp [hid, List.range'_succ, Nat.add_comm 1]

theorem declared_compileAll (hg : grammar.Faithful) (catalog : Catalog) (path : Path) :
    ∀ (first : Nat) (nodes : List Node),
    ∀ handler ∈ structuresOf (compileAll grammar catalog path first nodes),
      handler.trigger.kinds ≠ [] ∧
        ∀ kind ∈ handler.trigger.kinds, (catalog.list? kind).isSome = true
  | _, [], handler, h => by cases h
  | first, node :: rest, handler, h => by
    rw [compileAll, structuresOf_cons, List.mem_append, Option.mem_toList] at h
    rcases h with h | h
    · exact hg.declared h
    · exact declared_compileAll hg catalog path _ rest handler h

/-- The triggers of the scripts that are constructed of some files. -/
def triggersFrom (grammar : Grammar Handler) (catalog : Catalog) (first : Nat)
    (trees : List Tree) : List Trigger :=
  triggersOf ((compiled grammar catalog first trees).map scriptOf)

theorem triggersFrom_cons (grammar : Grammar Handler) (catalog : Catalog) (first : Nat)
    (tree : Tree) (trees : List Tree) : triggersFrom grammar catalog first (tree :: trees)
      = (structuresOf (compileAll grammar catalog tree.path first tree.nodes)).map (·.trigger)
        ++ triggersFrom grammar catalog (first + (structuresOf
          (compileAll grammar catalog tree.path first tree.nodes)).length) trees := rfl

/-- **The identities of a batch** are given out one after another. -/
theorem ids_triggersFrom (hg : grammar.Faithful) (catalog : Catalog) :
    ∀ (first : Nat) (trees : List Tree), (triggersFrom grammar catalog first trees).map (·.id)
      = List.range' first (triggersFrom grammar catalog first trees).length
  | _, [] => rfl
  | first, tree :: rest => by
    rw [triggersFrom_cons, List.map_append, ids_triggersFrom hg catalog _ rest, List.map_map]
    rw [show (fun t : Trigger => t.id) ∘ (fun h : Handler => h.trigger) = (·.trigger.id) from rfl,
      ids_compileAll hg, List.length_append, List.length_map, List.range'_append_1]

theorem declared_triggersFrom (hg : grammar.Faithful) (catalog : Catalog) :
    ∀ (first : Nat) (trees : List Tree), ∀ t ∈ triggersFrom grammar catalog first trees,
      t.kinds ≠ [] ∧ ∀ kind ∈ t.kinds, (catalog.list? kind).isSome = true
  | _, [], t, h => by cases h
  | first, tree :: rest, t, h => by
    rw [triggersFrom_cons, List.mem_append, List.mem_map] at h
    rcases h with ⟨handler, hh, rfl⟩ | h
    · exact declared_compileAll hg catalog tree.path first tree.nodes handler hh
    · exact declared_triggersFrom hg catalog _ rest t h

/-- So many identities have been given out afterwards. -/
theorem scripts_snd (catalog : Catalog) (census : Census) :
    ∀ (first : Nat) (trees : List Tree), (scripts grammar catalog census first trees).2
      = first + (triggersFrom grammar catalog first trees).length
  | _, [] => rfl
  | first, tree :: rest => by
    rw [scripts, triggersFrom_cons, List.length_append, List.length_map]
    simp only [scripts_snd catalog census, Nat.add_assoc]

/-- The triggers of a batch can be bound, if all that are served have older identities. -/
theorem bindable_triggersFrom (hg : grammar.Faithful) {first : Nat} (trees : List Tree)
    (hids : (served.map (·.id)).Nodup) (hbelow : ∀ t ∈ served, t.id < first) :
    Bindable catalog served (triggersFrom grammar catalog first trees) where
  ids := by
    rw [List.map_append, ids_triggersFrom hg, List.nodup_append]
    refine ⟨hids, List.nodup_range', fun id hid id' hid' he => ?_⟩
    obtain ⟨t, ht, rfl⟩ := List.mem_map.1 hid
    have hge := (List.mem_range'_1.1 hid').1
    exact absurd (hbelow t ht) (Nat.not_lt.2 (Nat.le_trans hge (Nat.le_of_eq he.symm)))
  declared := declared_triggersFrom hg catalog first trees

end Construct

/-! ## Batches -/

namespace Runtime

variable {rt : Runtime Handler} {env : Surroundings Handler} {paths : List Path}

/-- **What a batch of handlers enters** is what has been constructed of it. -/
theorem entering_constructed (hg : env.grammar.Faithful) (hu : env.scope.Untroubled)
    (hs : rt.router.Serves served) (hbelow : ∀ t ∈ served, t.id < rt.issued)
    (h : rt.Runs env paths) : Entering rt env paths (rt.constructed env paths).2.1 := by
  have hrouter := (undisturbed_starting rt env paths).router
  have hactivated : ((rt.starting env paths).activate (rt.constructed env paths).2.1).2
      = (rt.constructed env paths).2.1 := by
    refine activate_handlers (hrouter ▸ hs) ?_
    rw [hrouter, constructed_untroubled hu]
    exact Construct.bindable_triggersFrom hg _ hs.ids hbelow
  have hentering := entering_of_runs keepsAloof_handler h
  rwa [hactivated] at hentering

end Runtime

end EventScripts
