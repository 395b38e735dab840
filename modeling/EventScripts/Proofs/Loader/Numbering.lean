import EventScripts.Proofs.Loader.Handlers
import EventScripts.Proofs.Loader.Workers
/-!
# Identities

Identities are given out in ascending order, and none of them twice. So all that
a loader of handlers has loaded is older than what it will give out next
(`Numbered`), and a batch that is constructed again later differs from what it
was only in that its identities are higher ones (`constructed_shifted`).
-/

namespace EventScripts

variable {σ : Type}

/-! ## Older and newer identities -/

/-- The identities below a number stay, the others are moved up. -/
def shifted (first count : Nat) (id : TriggerId) : TriggerId :=
  if id < first then id else id + count

theorem shifted_of_lt {first count id : Nat} (h : id < first) : shifted first count id = id :=
  if_pos h

theorem shifted_of_le {first count id : Nat} (h : first ≤ id) :
    shifted first count id = id + count := if_neg (Nat.not_lt.2 h)

theorem shifted_injective (first count : Nat) : Function.Injective (shifted first count) := by
  have hinj : ∀ a b : Nat, shifted first count a = shifted first count b → a = b := by
    intro a b h
    rcases Nat.lt_or_ge a first with ha | ha <;> rcases Nat.lt_or_ge b first with hb | hb
    · rwa [shifted_of_lt ha, shifted_of_lt hb] at h
    · rw [shifted_of_lt ha, shifted_of_le hb] at h
      exact absurd ha (by rw [h]; exact Nat.not_lt.2 (Nat.le_add_right_of_le hb))
    · rw [shifted_of_le ha, shifted_of_lt hb] at h
      exact absurd hb (by rw [← h]; exact Nat.not_lt.2 (Nat.le_add_right_of_le ha))
    · rw [shifted_of_le ha, shifted_of_le hb] at h
      exact Nat.add_right_cancel h
  exact fun a b h => hinj a b h

namespace Construct

variable (grammar : Grammar σ) (catalog : Catalog) {start : Nat} (count : Nat)

theorem compileAll_shifted (path : Path) : ∀ {first : Nat} (nodes : List Node), start ≤ first →
    compileAll grammar catalog path (first + count) nodes
      = compileAll (grammar.numbered (shifted start count)) catalog path first nodes
  | _, [], _ => rfl
  | first, node :: rest, h => by
    have hcompile : (grammar.numbered (shifted start count)).compile catalog path first node
        = grammar.compile catalog path (first + count) node := by
      show grammar.compile catalog path (shifted start count first) node = _
      rw [shifted_of_le h]
    rw [compileAll, compileAll, hcompile, ← compileAll_shifted path rest (Nat.le_add_right_of_le h),
      Nat.add_right_comm]

theorem compiled_shifted : ∀ {first : Nat} (trees : List Tree), start ≤ first →
    compiled grammar catalog (first + count) trees
      = compiled (grammar.numbered (shifted start count)) catalog first trees
  | _, [], _ => rfl
  | first, tree :: rest, h => by
    rw [compiled, compiled, compileAll_shifted grammar catalog count tree.path tree.nodes h,
      ← compiled_shifted rest (Nat.le_add_right_of_le h), Nat.add_right_comm]

end Construct

namespace Runtime

/-- **A batch that is constructed later** has higher identities, and is the same otherwise. -/
theorem constructed_shifted [Structure σ] {ρ : Renaming σ} {env env' : Surroundings σ}
    (hu : env.scope.Untroubled) (hu' : env'.scope.Untroubled) (hg : env.grammar.Blind ρ)
    (hgrammar : env'.grammar = env.grammar) (hfiles : env'.files = env.files)
    {rt last : Runtime σ} (hcatalog : last.router.catalog = rt.router.catalog) {count : Nat}
    (hids : ρ.ids = shifted rt.issued count) (hissued : last.issued = rt.issued + count)
    (paths : List Path) : (last.constructed env' paths).2.1
      = (rt.constructed env paths).2.1.map (Script.map ρ.self) := by
  rw [constructed_untroubled hu', constructed_untroubled hu, hgrammar, hfiles, hcatalog, hissued,
    Construct.compiled_shifted env.grammar rt.router.catalog count _ (Nat.le_refl rt.issued),
    ← hids, Construct.compiled_numbered hg, List.map_map, List.map_map]
  refine List.map_congr_left fun file _ => ?_
  exact congrArg (Script.mk file.1.path) (Construct.structuresOf_map ρ.self file.2)

/-! ## What has been given out -/

theorem kept_issued (n : Nat) : Kept fun rt : Runtime σ => rt.issued = n where
  record _ _ _ _ h := h
  bind rt trigger h := by
    unfold bind
    split <;> exact h
  release _ _ h := h
  enter rt script h := by
    unfold enter
    split <;> exact h

theorem issued_scan (rt : Runtime σ) (files : FileSystem) (root : Path) :
    (rt.scan files root).1.issued = rt.issued := by
  obtain ⟨os, -, hscan⟩ := exists_scan rt files root
  rw [hscan]
  rfl

variable [Structure σ]

theorem issued_unloadScripts (rt : Runtime σ) (files : FileSystem) (paths : List Path) :
    (rt.unloadScripts files paths).1.issued = rt.issued := by
  obtain ⟨total, hunload⟩ := exists_unloadScripts rt files paths
  rw [hunload]
  exact (kept_issued rt.issued).unload (fun _ _ h => h) (paths.map files.scriptPath) rfl

/-- Only construction gives out identities. -/
theorem issued_load {rt : Runtime σ} {env : Surroundings σ} {paths : List Path}
    (h : rt.Runs env paths) :
    (rt.load env paths).1.issued = (rt.constructed env paths).1.issued := by
  obtain ⟨os, hload⟩ := load_of_runs h rfl
  obtain ⟨pre, load, post, hact⟩ :=
    exists_activation (rt.starting env paths) (rt.constructed env paths).2.1
  have hactivated := Call.kept_linked (kept_issued (rt.constructed env paths).1.issued)
    hact.linked rfl
  generalize (rt.starting env paths).activate (rt.constructed env paths).2.1 = activated
    at hload hactivated
  have hrecorded : (activated.1.record os).issued = (rt.constructed env paths).1.issued :=
    hactivated
  rw [hload]
  exact (kept_issued _).enterAll activated.2 hrecorded

end Runtime

/-! ## Loaders of handlers -/

theorem mem_triggersOf {scripts : List (Script Handler)} {t : Trigger} :
    t ∈ triggersOf scripts ↔ ∃ s ∈ scripts, ∃ h ∈ s.structures, h.trigger = t := by
  simp only [triggersOf, List.mem_flatMap, List.mem_map]

namespace Runtime

/-- Router and registry agree, and the identities of what is loaded have been given out. -/
structure Numbered (catalog : Catalog) (rt : Runtime Handler) : Prop
    extends Agree (fun h : Handler => some h.trigger) catalog rt where
  below : ∀ t ∈ triggersOf rt.registry.loaded, t.id < rt.issued

variable {catalog : Catalog} {rt last : Runtime Handler} {env : Surroundings Handler}

theorem numbered_fresh (catalog : Catalog) (workers : Nat) :
    Numbered catalog { router := { catalog }, workers } :=
  ⟨⟨rfl, ⟨[], Router.serves_nil catalog, .refl _⟩, List.Pairwise.nil⟩, nofun⟩

/-- It does not depend on the markers, nor on what is recorded. -/
theorem Numbered.congr (h : Numbered catalog rt) (hrouter : last.router = rt.router)
    (hloaded : last.registry.loaded = rt.registry.loaded) (hissued : last.issued = rt.issued) :
    Numbered catalog last where
  toAgree := h.toAgree.congr hrouter hloaded
  below := by
    rw [hloaded, hissued]
    exact h.below

theorem Numbered.record (h : Numbered catalog rt) (os : List Occurrence) :
    Numbered catalog (rt.record os) := h.congr rfl rfl rfl

/-- What is served has been given out as well. -/
theorem Numbered.exists_serves (h : Numbered catalog rt) :
    ∃ served, rt.router.Serves served ∧ ∀ t ∈ served, t.id < rt.issued := by
  obtain ⟨served, hs, hperm⟩ := h.serves
  rw [owned_handlers] at hperm
  exact ⟨served, hs, fun t ht => h.below t (hperm.mem_iff.1 ht)⟩

/-- The triggers of a batch have been given out when it has been constructed. -/
theorem constructed_below (hg : env.grammar.Faithful) (hu : env.scope.Untroubled)
    (rt : Runtime Handler) (paths : List Path) :
    rt.issued ≤ (rt.constructed env paths).1.issued ∧
      ∀ t ∈ triggersOf (rt.constructed env paths).2.1,
        t.id < (rt.constructed env paths).1.issued := by
  have hissued : (rt.constructed env paths).1.issued
      = rt.issued + (triggersOf (rt.constructed env paths).2.1).length := by
    rw [constructed_untroubled hu]
    exact Construct.scripts_snd rt.router.catalog _ rt.issued _
  have hids := Construct.ids_triggersFrom hg rt.router.catalog rt.issued
    (Batch.trees env.files (Batch.resolved env.files paths))
  rw [Construct.triggersFrom, ← constructed_untroubled hu rt paths] at hids
  rw [hissued]
  refine ⟨Nat.le_add_right _ _, fun t ht => ?_⟩
  have hid := List.mem_map_of_mem (f := fun t : Trigger => t.id) ht
  rw [hids] at hid
  exact (List.mem_range'_1.1 hid).2

theorem numbered_load (hg : env.grammar.Faithful) (hu : env.scope.Untroubled)
    (h : Numbered catalog rt) (paths : List Path) : Numbered catalog (rt.load env paths).1 := by
  cases hv : rt.registry.violation? [] (Batch.resolved env.files paths) with
  | some violation =>
    rw [load_eq, hv]
    exact h.congr rfl rfl rfl
  | none =>
    have hr := (runs_iff hu).2 hv
    obtain ⟨served, hs, hbelow⟩ := h.exists_serves
    have he := entering_constructed hg hu hs hbelow hr
    obtain ⟨hle, hnew⟩ := constructed_below hg hu rt paths
    have hloaded : (rt.load env paths).1.registry.loaded.Perm
        ((rt.constructed env paths).2.1 ++ rt.registry.loaded) := by
      rw [he.registry]
      refine Registry.loaded_enterEach_of_free he.apart fun p hp => ?_
      obtain ⟨s, hs, rfl⟩ := List.mem_map.1 hp
      exact he.free s hs
    refine ⟨agree_load owning_handler keepsAloof_handler env (fun count text => ?_) paths h.toAgree,
      fun t ht => ?_⟩
    · rw [hu.closes]
      nofun
    · rw [issued_load hr]
      obtain ⟨s, hs, handler, hh, rfl⟩ := mem_triggersOf.1 ht
      rcases List.mem_append.1 (hloaded.mem_iff.1 hs) with hs | hs
      · exact hnew _ (mem_triggersOf.2 ⟨s, hs, handler, hh, rfl⟩)
      · exact Nat.lt_of_lt_of_le (h.below _ (mem_triggersOf.2 ⟨s, hs, handler, hh, rfl⟩)) hle

theorem numbered_scan (h : Numbered catalog rt) (files : FileSystem) (root : Path) :
    Numbered catalog (rt.scan files root).1 :=
  h.congr (scan_spec files root rt).1 (scan_spec files root rt).2 (issued_scan rt files root)

theorem numbered_loadDirectory (hg : env.grammar.Faithful) (hu : env.scope.Untroubled)
    (h : Numbered catalog rt) (root : Path) : Numbered catalog (rt.loadDirectory env root).1 :=
  numbered_load hg hu (numbered_scan h env.files root) _

theorem numbered_unloadScripts (h : Numbered catalog rt) (files : FileSystem)
    (paths : List Path) : Numbered catalog (rt.unloadScripts files paths).1 where
  toAgree := agree_unloadScripts owning_handler keepsAloof_handler files paths h.toAgree
  below := by
    intro t ht
    rw [issued_unloadScripts]
    obtain ⟨s, hs, handler, hh, rfl⟩ := mem_triggersOf.1 ht
    rw [registry_unloadScripts keepsAloof_handler, Registry.take_snd] at hs
    exact h.below _ (mem_triggersOf.2 ⟨s, (List.mem_filter.1 hs).1, handler, hh, rfl⟩)

theorem numbered_unloadAll (h : Numbered catalog rt) (files : FileSystem) :
    Numbered catalog (rt.unloadAll files).1 := numbered_unloadScripts h files _

theorem numbered_reloadDirectory (hg : env.grammar.Faithful) (hu : env.scope.Untroubled)
    (h : Numbered catalog rt) (root : Path) : Numbered catalog (rt.reloadDirectory env root).1 := by
  obtain ⟨count, hreload⟩ := exists_reloadDirectory rt env root
  rw [hreload]
  exact (numbered_loadDirectory hg hu (numbered_unloadAll h env.files) root).congr
    rfl rfl rfl

end Runtime

end EventScripts
