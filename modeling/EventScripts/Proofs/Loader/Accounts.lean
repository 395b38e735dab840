import EventScripts.Proofs.Loader.Notices
/-!
# The accounts of a loader

The registry, what observers are told and what the operations return are three
accounts of the same scripts. `accounts_of_run` says that they agree after any
run of operations, whatever the files, the scopes and the grammars are at each of
them, as long as the structures keep out of the registry.

All of it comes from two kinds of entries: a batch of scripts joins the loaded
ones, or some of them are taken out; `split_at` says what either means for the
script under one path.
-/

namespace EventScripts

namespace Tally

theorem add_assoc (a b c : Tally) : a + b + c = a + (b + c) :=
  congrArg₂ mk (Nat.add_assoc ..) (Nat.add_assoc ..)

theorem add_comm (a b : Tally) : a + b = b + a :=
  congrArg₂ mk (Nat.add_comm ..) (Nat.add_comm ..)

theorem add_left_comm (a b c : Tally) : a + (b + c) = b + (a + c) := by
  rw [← add_assoc, add_comm a, add_assoc]

theorem add_zero (a : Tally) : a + {} = a := rfl

theorem zero_add (a : Tally) : {} + a = a := congrArg₂ mk (Nat.zero_add _) (Nat.zero_add _)

theorem add_sub_cancel (a b : Tally) : a + b - b = a :=
  congrArg₂ mk (Nat.add_sub_cancel ..) (Nat.add_sub_cancel ..)

theorem sum_append : ∀ tallies more : List Tally, sum (tallies ++ more) = sum tallies + sum more
  | [], more => (zero_add _).symm
  | t :: tallies, more => by
    rw [List.cons_append, sum_cons, sum_cons, sum_append tallies more, add_assoc]

theorem eq_nil_of_sum {σ : Type} {scripts : List (Script σ)}
    (h : sum (scripts.map Script.tally) = {}) : scripts = [] := by
  have hfiles := congrArg files h
  rw [files_sum] at hfiles
  exact List.length_eq_zero_iff.1 hfiles

end Tally

/-! ## What observers are told of one path -/

namespace Occurrence

/-- What an observer learns of the script under a path: that it has been loaded, with its number
of structures, or that it has been unloaded. -/
def news? (path : Path) : Occurrence → Option (Option Nat)
  | scriptLoaded script structures => if path.same script then some (some structures) else none
  | scriptUnloaded script => if path.same script then some none else none
  | _ => none

/-- What observers have been told of the script under a path, in order. -/
def news (path : Path) (os : List Occurrence) : List (Option Nat) := os.filterMap (news? path)

theorem news_append (path : Path) (os more : List Occurrence) :
    news path (os ++ more) = news path os ++ news path more := List.filterMap_append

theorem news_notices (path : Path) (os : List Occurrence) : news path (notices os) = news path os := by
  rw [news, notices, List.filterMap_filter]
  refine List.filterMap_congr fun o _ => ?_
  cases o <;> rfl

/-- The total of the scripts that observers have been told were loaded. -/
def loadedTotal (os : List Occurrence) : Tally :=
  .sum (os.filterMap fun
    | scriptLoaded _ structures => some ⟨1, structures⟩
    | _ => none)

/-- The total of the scripts that observers have been told were unloaded, each with the structures
that it held. -/
def unloadedTotal {σ : Type} (held : Registry σ) (os : List Occurrence) : Tally :=
  .sum (os.filterMap fun
    | scriptUnloaded script => (held.script? script).map Script.tally
    | _ => none)

theorem loadedTotal_append (os more : List Occurrence) :
    loadedTotal (os ++ more) = loadedTotal os + loadedTotal more := by
  rw [loadedTotal, List.filterMap_append, Tally.sum_append]
  rfl

theorem unloadedTotal_append {σ : Type} (held : Registry σ) (os more : List Occurrence) :
    unloadedTotal held (os ++ more) = unloadedTotal held os + unloadedTotal held more := by
  rw [unloadedTotal, List.filterMap_append, Tally.sum_append]
  rfl

theorem loadedTotal_notices (os : List Occurrence) :
    loadedTotal (notices os) = loadedTotal os := by
  rw [loadedTotal, notices, List.filterMap_filter]
  refine congrArg Tally.sum (List.filterMap_congr fun o _ => ?_)
  cases o <;> rfl

theorem unloadedTotal_notices {σ : Type} (held : Registry σ) (os : List Occurrence) :
    unloadedTotal held (notices os) = unloadedTotal held os := by
  rw [unloadedTotal, notices, List.filterMap_filter]
  refine congrArg Tally.sum (List.filterMap_congr fun o _ => ?_)
  cases o <;> rfl

/-- Loaded and unloaded by turns, loaded first; what was told last is how it is now. -/
inductive Alternates : List (Option Nat) → Option Nat → Prop where
  | never : Alternates [] none
  | loaded {told : List (Option Nat)} (structures : Nat) (h : Alternates told none) :
    Alternates (told ++ [some structures]) (some structures)
  | unloaded {told : List (Option Nat)} {structures : Nat} (h : Alternates told (some structures)) :
    Alternates (told ++ [none]) none

end Occurrence

namespace Registry

variable {σ : Type}

/-- The number of structures of the script that is loaded under a path. -/
def structures? (registry : Registry σ) (path : Path) : Option Nat :=
  (registry.script? path).map (·.structures.length)

theorem script?_eq_none_iff {registry : Registry σ} {path : Path} :
    registry.script? path = none ↔
      ∀ s ∈ registry.loaded, path.components ≠ s.path.components := by
  simp [script?, List.find?_eq_none, Path.keyCompare_eq_iff]

theorem script?_of_mem {registry : Registry σ} {path : Path} {s : Script σ}
    (ha : Apart registry.loaded) (hs : s ∈ registry.loaded)
    (hp : path.components = s.path.components) : registry.script? path = some s := by
  cases hf : registry.script? path with
  | none => exact absurd hp (script?_eq_none_iff.1 hf s hs)
  | some other =>
    obtain ⟨ho, hc⟩ := script?_eq_some hf
    rw [ha.eq ho hs (hc.symm.trans hp)]

theorem filter_same_eq_nil {scripts : List (Script σ)} {path : Path}
    (h : ∀ s ∈ scripts, path.components ≠ s.path.components) :
    scripts.filter (path.same ·.path) = [] :=
  List.filter_eq_nil_iff.2 fun s hs hsame => h s hs (Path.same_iff.1 hsame)

theorem filter_same_of_mem {scripts : List (Script σ)} {path : Path} {s : Script σ}
    (ha : Apart scripts) (hs : s ∈ scripts) (hp : path.components = s.path.components) :
    scripts.filter (path.same ·.path) = [s] := by
  obtain ⟨front, back, rfl⟩ := List.append_of_mem hs
  have hother : ∀ other ∈ front ++ back, s.path.components ≠ other.path.components := by
    intro other ho
    have hperm : Apart (s :: (front ++ back)) :=
      (List.perm_middle.pairwise_iff Ne.symm).1 ha
    exact (List.pairwise_cons.1 hperm).1 other ho
  rw [List.filter_append, List.filter_cons, if_pos (Path.same_iff.2 hp),
    filter_same_eq_nil fun other ho => hp ▸ hother other (List.mem_append_left _ ho),
    filter_same_eq_nil fun other ho => hp ▸ hother other (List.mem_append_right _ ho),
    List.nil_append]

/-- **When scripts are added to others**, either one of them has a path, and none of the others,
or none of them has it, and the script under it is as it was. -/
theorem split_at {all rest : Registry σ} {scripts : List (Script σ)}
    (hperm : all.loaded.Perm (scripts ++ rest.loaded)) (ha : Apart all.loaded) (path : Path) :
    (∃ s, scripts.filter (path.same ·.path) = [s] ∧ all.script? path = some s ∧
      rest.script? path = none) ∨
    scripts.filter (path.same ·.path) = [] ∧ all.script? path = rest.script? path := by
  have hapart : Apart (scripts ++ rest.loaded) := (hperm.pairwise_iff Ne.symm).1 ha
  obtain ⟨hscripts, hrest, hcross⟩ := List.pairwise_append.1 hapart
  by_cases hs : ∃ s ∈ scripts, path.components = s.path.components
  · obtain ⟨s, hs, hp⟩ := hs
    refine .inl ⟨s, filter_same_of_mem hscripts hs hp,
      script?_of_mem ha (hperm.mem_iff.2 (List.mem_append_left _ hs)) hp, ?_⟩
    exact script?_eq_none_iff.2 fun other ho => hp ▸ hcross s hs other ho
  · have hnone : ∀ s ∈ scripts, path.components ≠ s.path.components := fun s hm he => hs ⟨s, hm, he⟩
    refine .inr ⟨filter_same_eq_nil hnone, ?_⟩
    cases hf : rest.script? path with
    | none =>
      refine script?_eq_none_iff.2 fun s hs => ?_
      rcases List.mem_append.1 (hperm.mem_iff.1 hs) with hs | hs
      · exact hnone s hs
      · exact script?_eq_none_iff.1 hf s hs
    | some s =>
      obtain ⟨hs, hp⟩ := script?_eq_some hf
      exact script?_of_mem ha (hperm.mem_iff.2 (List.mem_append_right _ hs)) hp

theorem tally_split {all rest : Registry σ} {scripts : List (Script σ)}
    (hperm : all.loaded.Perm (scripts ++ rest.loaded)) :
    all.tally = Tally.sum (scripts.map Script.tally) + rest.tally := by
  rw [tally, Tally.sum_perm (hperm.map _), List.map_append, Tally.sum_append]
  rfl

open Occurrence (Alternates)

variable {all rest : Registry σ} {scripts : List (Script σ)} {path : Path} {told : List (Option Nat)}

/-- Scripts join, and are told of. -/
theorem alternates_join (hperm : all.loaded.Perm (scripts ++ rest.loaded))
    (ha : Apart all.loaded) (h : Alternates told (rest.structures? path)) :
    Alternates (told ++ (scripts.filter (path.same ·.path)).map fun s => some s.structures.length)
      (all.structures? path) := by
  rw [structures?] at h ⊢
  rcases split_at hperm ha path with ⟨s, hfilter, hafter, hbefore⟩ | ⟨hfilter, hsame⟩
  · rw [hbefore] at h
    rw [hfilter, hafter]
    exact h.loaded _
  · rw [hfilter, hsame, List.map_nil, List.append_nil]
    exact h

/-- Scripts leave, and are told of. -/
theorem alternates_leave (hperm : all.loaded.Perm (scripts ++ rest.loaded))
    (ha : Apart all.loaded) (h : Alternates told (all.structures? path)) :
    Alternates (told ++ (scripts.filter (path.same ·.path)).map fun _ => none)
      (rest.structures? path) := by
  rw [structures?] at h ⊢
  rcases split_at hperm ha path with ⟨s, hfilter, hbefore, hafter⟩ | ⟨hfilter, hsame⟩
  · rw [hbefore] at h
    rw [hfilter, hafter]
    exact h.unloaded
  · rw [hfilter, ← hsame, List.map_nil, List.append_nil]
    exact h

end Registry

namespace Runtime

open Occurrence (news Alternates loadedTotal unloadedTotal)

variable {σ : Type} {rt mid last : Runtime σ} {gained lost : Tally}

theorem news_of_noted {notices : List Occurrence} (h : Noted rt last notices) (path : Path) :
    news path last.trace = news path rt.trace ++ news path notices := by
  obtain ⟨os, htrace, rfl⟩ := h
  rw [htrace, Occurrence.news_append, Occurrence.news_notices]

theorem news_loaded (path : Path) (scripts : List (Script σ)) :
    news path (scripts.map loadedNotice)
      = (scripts.filter (path.same ·.path)).map fun s => some s.structures.length := by
  induction scripts with
  | nil => rfl
  | cons script scripts ih =>
    rw [List.map_cons, news, List.filterMap_cons, ← news, ih, List.filter_cons]
    cases hs : path.same script.path <;> simp [loadedNotice, Occurrence.news?, hs]

theorem news_unloaded (path : Path) (scripts : List (Script σ)) :
    news path (scripts.map unloadedNotice)
      = (scripts.filter (path.same ·.path)).map fun _ => none := by
  induction scripts with
  | nil => rfl
  | cons script scripts ih =>
    rw [List.map_cons, news, List.filterMap_cons, ← news, ih, List.filter_cons]
    cases hs : path.same script.path <;> simp [unloadedNotice, Occurrence.news?, hs]

theorem loadedTotal_loaded (scripts : List (Script σ)) :
    loadedTotal (scripts.map loadedNotice) = Tally.sum (scripts.map Script.tally) := by
  rw [loadedTotal, List.filterMap_map]
  exact congrArg Tally.sum (congrFun List.filterMap_eq_map scripts)

theorem loadedTotal_unloaded (scripts : List (Script σ)) :
    loadedTotal (scripts.map unloadedNotice) = {} := by
  rw [loadedTotal, List.filterMap_map]
  exact congrArg Tally.sum (List.filterMap_eq_nil_iff.2 fun _ _ => rfl)

theorem unloadedTotal_loaded (held : Registry σ) (scripts : List (Script σ)) :
    unloadedTotal held (scripts.map loadedNotice) = {} := by
  rw [unloadedTotal, List.filterMap_map]
  exact congrArg Tally.sum (List.filterMap_eq_nil_iff.2 fun _ _ => rfl)

theorem unloadedTotal_unloaded {held : Registry σ} {scripts : List (Script σ)}
    (ha : Registry.Apart held.loaded) (h : ∀ s ∈ scripts, s ∈ held.loaded) :
    unloadedTotal held (scripts.map unloadedNotice) = Tally.sum (scripts.map Script.tally) := by
  rw [unloadedTotal, List.filterMap_map]
  refine congrArg Tally.sum ((List.filterMap_congr fun s hs => ?_).trans
    (congrFun List.filterMap_eq_map scripts))
  show (held.script? s.path).map Script.tally = some s.tally
  rw [Registry.script?_of_mem ha (h s hs) rfl]
  rfl

/-! ## Operations -/

/-- An operation of a loader. -/
inductive Operation (σ : Type) where
  | load (env : Surroundings σ) (paths : List Path)
  | loadDirectory (env : Surroundings σ) (root : Path)
  | unloadScripts (files : FileSystem) (paths : List Path)
  | unloadAll (files : FileSystem)
  | reload (env : Surroundings σ) (paths : List Path)
  | reloadDirectory (env : Surroundings σ) (root : Path)

/-- The total of a summary; without one, nothing. -/
def totalOf : Except Interruption Tally → Tally
  | .ok tally => tally
  | .error _ => {}

namespace Operation

variable [Structure σ]

/-- The loader after an operation. -/
def after (rt : Runtime σ) : Operation σ → Runtime σ
  | load env paths => (rt.load env paths).1
  | loadDirectory env root => (rt.loadDirectory env root).1
  | unloadScripts files paths => (rt.unloadScripts files paths).1
  | unloadAll files => (rt.unloadAll files).1
  | reload env paths => (rt.reload env paths).1
  | reloadDirectory env root => (rt.reloadDirectory env root).1

/-- What the operation says it has loaded. -/
def loads (rt : Runtime σ) : Operation σ → Tally
  | load env paths => totalOf (rt.load env paths).2
  | loadDirectory env root => totalOf (rt.loadDirectory env root).2
  | unloadScripts _ _ | unloadAll _ => {}
  | reload env paths => totalOf (rt.reload env paths).2
  | reloadDirectory env root => totalOf (rt.reloadDirectory env root).2

/-- What the operation says it has unloaded; a reload begins with unloading. -/
def unloads (rt : Runtime σ) : Operation σ → Tally
  | load _ _ | loadDirectory _ _ => {}
  | unloadScripts files paths => (rt.unloadScripts files paths).2
  | unloadAll files => (rt.unloadAll files).2
  | reload env paths => (rt.unloadScripts env.files paths).2
  | reloadDirectory env _ => (rt.unloadAll env.files).2

end Operation

/-! ## The accounts agree -/

/-- Loaded scripts differ in their paths; observers know which scripts are loaded, and with how
many structures; and these are what has been loaded less what has been unloaded. -/
structure Balanced (rt : Runtime σ) (gained lost : Tally) : Prop where
  apart : Registry.Apart rt.registry.loaded
  told : ∀ path, Alternates (news path rt.trace) (rt.registry.structures? path)
  tally : rt.registry.tally + lost = gained

theorem balanced_fresh (catalog : Catalog) (workers : Nat) :
    Balanced ({ router := { catalog }, workers } : Runtime σ) {} {} :=
  ⟨.nil, fun _ => .never, rfl⟩

/-- What an operation does: scripts are taken out, then others join those that are left, and
observers are told of all of them. -/
inductive Exchange (rt last : Runtime σ) : Tally → Tally → Prop where
  | intro (out joined rest : List (Script σ)) (hapart : Registry.Apart last.registry.loaded)
      (hbefore : rt.registry.loaded.Perm (out ++ rest))
      (hafter : last.registry.loaded.Perm (joined ++ rest))
      (hnoted : Noted rt last (out.map unloadedNotice ++ joined.map loadedNotice)) :
      Exchange rt last (Tally.sum (joined.map Script.tally)) (Tally.sum (out.map Script.tally))

variable {loads unloads : Tally}

/-- **An exchange keeps the balance.** -/
theorem Balanced.exchange (h : Balanced rt gained lost) (he : Exchange rt last loads unloads) :
    Balanced last (gained + loads) (lost + unloads) := by
  obtain ⟨out, joined, rest, hapart, hbefore, hafter, hnoted⟩ := he
  let left : Registry σ := { loaded := rest }
  have hout : rt.registry.loaded.Perm (out ++ left.loaded) := hbefore
  have hjoined : last.registry.loaded.Perm (joined ++ left.loaded) := hafter
  refine ⟨hapart, fun path => ?_, ?_⟩
  · rw [news_of_noted hnoted, Occurrence.news_append, news_unloaded, news_loaded,
      ← List.append_assoc]
    exact Registry.alternates_join hjoined hapart
      (Registry.alternates_leave hout h.apart (h.told path))
  · calc last.registry.tally + (lost + Tally.sum (out.map Script.tally))
        = Tally.sum (joined.map Script.tally) + left.tally
            + (lost + Tally.sum (out.map Script.tally)) := by rw [Registry.tally_split hjoined]
      _ = (Tally.sum (out.map Script.tally) + left.tally + lost)
            + Tally.sum (joined.map Script.tally) := by
          simp only [Tally.add_assoc, Tally.add_comm, Tally.add_left_comm]
      _ = gained + Tally.sum (joined.map Script.tally) := by
          rw [← Registry.tally_split hout, h.tally]

/-- **The operation returns the totals of what observers are told.** -/
theorem Exchange.totals (he : Exchange rt last loads unloads)
    (ha : Registry.Apart rt.registry.loaded) : ∃ os, last.trace = rt.trace ++ os ∧
      loads = loadedTotal os ∧ unloads = unloadedTotal rt.registry os := by
  obtain ⟨out, joined, rest, -, hbefore, -, os, htrace, hos⟩ := he
  refine ⟨os, htrace, ?_, ?_⟩
  · rw [← Occurrence.loadedTotal_notices, hos, Occurrence.loadedTotal_append,
      loadedTotal_unloaded, loadedTotal_loaded, Tally.zero_add]
  · rw [← Occurrence.unloadedTotal_notices, hos, Occurrence.unloadedTotal_append,
      unloadedTotal_unloaded ha fun s hs => hbefore.mem_iff.2 (List.mem_append_left _ hs),
      unloadedTotal_loaded, Tally.add_zero]

theorem exchange_quiet (ha : Registry.Apart rt.registry.loaded) (h : Quiet rt last) :
    Exchange rt last {} {} :=
  .intro [] [] rt.registry.loaded (h.loaded ▸ ha) (.refl _) (.of_eq h.loaded) h.noted

theorem Balanced.quiet (h : Balanced rt gained lost) (hq : Quiet rt last) :
    Balanced last gained lost :=
  h.exchange (exchange_quiet h.apart hq)

theorem Exchange.of_quiet (h : Quiet rt mid)
    (he : Exchange mid last loads unloads) : Exchange rt last loads unloads := by
  obtain ⟨out, joined, rest, hapart, hbefore, hafter, hnoted⟩ := he
  exact .intro out joined rest hapart (h.loaded ▸ hbefore) hafter (h.noted.trans hnoted)

theorem Exchange.then_quiet (he : Exchange rt mid loads unloads)
    (h : Quiet mid last) : Exchange rt last loads unloads := by
  obtain ⟨out, joined, rest, hapart, hbefore, hafter, hnoted⟩ := he
  exact .intro out joined rest (h.loaded ▸ hapart) hbefore (h.loaded ▸ hafter)
    (hnoted.silent h.noted)

/-- Taking scripts out, then having others join. -/
theorem Exchange.trans {others more : Tally} (h : Exchange rt mid others unloads)
    (h' : Exchange mid last loads more) (ho : others = {}) (hm : more = {}) :
    Exchange rt last loads unloads := by
  obtain ⟨out, none, rest, -, hbefore, hmid, hnoted⟩ := h
  obtain ⟨none', joined, rest', hapart, hmid', hafter, hnoted'⟩ := h'
  obtain rfl := Tally.eq_nil_of_sum ho
  obtain rfl := Tally.eq_nil_of_sum hm
  refine .intro out joined rest hapart hbefore
    (hafter.trans ((hmid'.symm.trans hmid).append_left joined)) ?_
  simpa using hnoted.trans hnoted'

/-! ## The operations are exchanges -/

variable [Structure σ]

theorem exchange_load (hk : KeepsAloof σ) (ha : Registry.Apart rt.registry.loaded)
    (env : Surroundings σ) (paths : List Path) :
    Exchange rt (rt.load env paths).1 (totalOf (rt.load env paths).2) {} := by
  have hend := batchEnd_load hk rt env paths
  have hafter := apart_load env paths ha
  generalize rt.load env paths = out at hend hafter
  obtain ⟨last, result⟩ := out
  cases hend with
  | nothing e hq => exact exchange_quiet ha hq
  | entered scripts hapart hfree hloaded hnoted =>
    exact .intro [] scripts rt.registry.loaded hafter (.refl _) hloaded hnoted

theorem exchange_unloadScripts (hk : KeepsAloof σ) (ha : Registry.Apart rt.registry.loaded)
    (files : FileSystem) (paths : List Path) :
    Exchange rt (rt.unloadScripts files paths).1 {} (rt.unloadScripts files paths).2 := by
  have hloaded : (rt.unloadScripts files paths).1.registry.loaded
      = (rt.registry.take (paths.map files.scriptPath)).2.loaded := by
    rw [registry_unloadScripts hk]
    rfl
  rw [(unloadScripts_spec rt files paths).1]
  refine .intro _ [] (rt.unloadScripts files paths).1.registry.loaded
    (apart_unloadScripts files paths ha) ?_ (.refl _) ?_
  · rw [hloaded]
    exact Registry.take_perm ha _
  · rw [List.map_nil, List.append_nil]
    exact noted_unloadScripts hk rt files paths

theorem exchange_operation (hk : KeepsAloof σ) (ha : Registry.Apart rt.registry.loaded)
    (op : Operation σ) : Exchange rt (op.after rt) (op.loads rt) (op.unloads rt) := by
  cases op with
  | load env paths => exact exchange_load hk ha env paths
  | loadDirectory env root =>
    have hscan := quiet_scan rt env.files root
    exact (exchange_load hk (hscan.loaded ▸ ha) env _).of_quiet hscan
  | unloadScripts files paths => exact exchange_unloadScripts hk ha files paths
  | unloadAll files => exact exchange_unloadScripts hk ha files _
  | reload env paths =>
    exact (exchange_unloadScripts hk ha env.files paths).trans
      (exchange_load hk (apart_unloadScripts env.files paths ha) env paths) rfl rfl
  | reloadDirectory env root =>
    have hout := exchange_unloadScripts hk ha env.files rt.registry.loadedPaths
    have hscan := quiet_scan (rt.unloadAll env.files).1 env.files root
    have hin := (exchange_load hk (hscan.loaded ▸ apart_unloadScripts env.files _ ha) env
      ((rt.unloadAll env.files).1.scan env.files root).2).of_quiet hscan
    have hboth : Exchange rt ((rt.unloadAll env.files).1.loadDirectory env root).1
        (totalOf ((rt.unloadAll env.files).1.loadDirectory env root).2)
        (rt.unloadAll env.files).2 := hout.trans hin rfl rfl
    simp only [Operation.after, Operation.loads, Operation.unloads, reloadDirectory]
    generalize (rt.unloadAll env.files).1.loadDirectory env root = loaded at hboth
    obtain ⟨last, result⟩ := loaded
    cases result with
    | error e => exact hboth
    | ok tally =>
      simp only
      split
      · exact hboth.then_quiet (quiet_record last rfl)
      · exact hboth

/-! ## Runs -/

/-- A run of a loader, with the sums of what its operations say they have loaded and unloaded.
Between operations events may be delivered, and others may change the number of workers and mark
scripts as disabled. -/
inductive Run (catalog : Catalog) : Runtime σ → Tally → Tally → Prop where
  | fresh (workers : Nat) : Run catalog { router := { catalog }, workers } {} {}
  | operation {rt : Runtime σ} {gained lost : Tally} (h : Run catalog rt gained lost)
      (op : Operation σ) :
      Run catalog (op.after rt) (gained + op.loads rt) (lost + op.unloads rt)
  | dispatch {rt : Runtime σ} {gained lost : Tally} (h : Run catalog rt gained lost)
      (event : Event) (tier : Tier) : Run catalog (rt.dispatch event tier).1 gained lost
  | fire {rt : Runtime σ} {gained lost : Tally} (h : Run catalog rt gained lost) (event : Event) :
      Run catalog (rt.fire event).1 gained lost
  | resize {rt : Runtime σ} {gained lost : Tally} (h : Run catalog rt gained lost)
      (workers : Nat) : Run catalog { rt with workers } gained lost
  | mark {rt : Runtime σ} {gained lost : Tally} (h : Run catalog rt gained lost) (path : Path) :
      Run catalog (rt.markDisabled path).1 gained lost

theorem balanced_of_run (hk : KeepsAloof σ) {catalog : Catalog} (h : Run catalog rt gained lost) :
    Balanced rt gained lost := by
  induction h with
  | fresh workers => exact balanced_fresh catalog workers
  | operation _ op ih => exact ih.exchange (exchange_operation hk ih.apart op)
  | dispatch _ event tier ih => exact ih.quiet (quiet_record _ (notices_executions _ _))
  | fire _ event ih => exact ih.quiet (quiet_record _ (notices_executions _ _))
  | resize _ workers ih => exact ih.quiet ⟨⟨[], (List.append_nil _).symm, rfl⟩, rfl⟩
  | mark _ path ih => exact ih.quiet (quiet_markDisabled _ path)

/-- **The accounts of a loader agree** after any run, as long as structures keep out of the
registry. Of each path observers are told by turns that it has been loaded and that it has been
unloaded, and last that it has been loaded, with its present number of structures, exactly if it
is in the registry. What an operation returns are the totals of what observers are told during it,
and without a result there is nothing to tell of loading. So the registry has what all operations
have loaded, less what they have unloaded. -/
theorem accounts_of_run (hk : KeepsAloof σ) {catalog : Catalog} (h : Run catalog rt gained lost) :
    (∀ path, Alternates (news path rt.trace) (rt.registry.structures? path)) ∧
    (∀ op : Operation σ, ∃ os, (op.after rt).trace = rt.trace ++ os ∧
      op.loads rt = loadedTotal os ∧ op.unloads rt = unloadedTotal rt.registry os) ∧
    rt.registry.tally + lost = gained ∧ rt.registry.tally = gained - lost := by
  have hb := balanced_of_run hk h
  refine ⟨hb.told, fun op => (exchange_operation hk hb.apart op).totals hb.apart, hb.tally, ?_⟩
  rw [← hb.tally, Tally.add_sub_cancel]

/-- One file is loaded, and unloaded again. -/
theorem accounts_of_one_file :
    let rt := (holdingOne.unloadAll oneFile).1
    Alternates (news ⟨"/a.sk"⟩ holdingOne.trace) (some 1) ∧ holdingOne.registry.tally = ⟨1, 1⟩ ∧
      Alternates (news ⟨"/a.sk"⟩ rt.trace) none ∧ rt.registry.tally = {} := by
  have hloaded : Run Demo.catalog holdingOne _ _ :=
    .operation (.fresh 0) (.load ⟨Demo.grammar, oneFile, {}, []⟩ [⟨"/a.sk"⟩])
  have hunloaded : Run Demo.catalog (holdingOne.unloadAll oneFile).1 _ _ :=
    hloaded.operation (.unloadAll oneFile)
  obtain ⟨htold, -, -, htally⟩ := accounts_of_run keepsAloof_handler hloaded
  obtain ⟨htold', -, -, htally'⟩ := accounts_of_run keepsAloof_handler hunloaded
  obtain ⟨hone, hnone, hloads, hunloads⟩ :
      holdingOne.registry.structures? ⟨"/a.sk"⟩ = some 1 ∧
      (holdingOne.unloadAll oneFile).1.registry.structures? ⟨"/a.sk"⟩ = none ∧
      Operation.loads ⟨⟨Demo.catalog, []⟩, {}, 0, 1, []⟩
        (.load ⟨Demo.grammar, oneFile, {}, []⟩ [⟨"/a.sk"⟩]) = ⟨1, 1⟩ ∧
      Operation.unloads holdingOne (.unloadAll oneFile) = ⟨1, 1⟩ := by cbv
  rw [hloads] at htally htally'
  rw [hunloads] at htally'
  exact ⟨hone ▸ htold ⟨"/a.sk"⟩, htally, hnone ▸ htold' ⟨"/a.sk"⟩, htally'⟩

end Runtime

end EventScripts
