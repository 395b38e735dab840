import EventScripts.Demo.Grammar
import EventScripts.Proofs.FileSystem.Resolution
import EventScripts.Proofs.Loader.Construction
import EventScripts.Proofs.Loader.Renaming
import Mathlib.Logic.Equiv.Basic
/-!
# Workers

How many workers construct the scripts of a batch, and in what order they get
on with it, decides in what order the identities are given out and the problems
are reported, and nothing else: `load_on_workers` compares a batch with the same
batch without workers. The order in which identities are given out is a
`Renaming`, and a grammar must be `Blind` to it.

`SPEC_FULL.md` §5 leaves nothing but construction to the workers.
-/

namespace EventScripts

variable {σ : Type}

/-! ## Grammars -/

/-- What compiling a block comes to, with the structure mapped. -/
def Compiled.map (f : σ → σ) (compiled : Compiled σ) : Compiled σ :=
  ⟨compiled.problems, compiled.result.map (Option.map f)⟩

namespace Grammar

/-- The grammar when identities are given out otherwise. -/
def numbered (grammar : Grammar σ) (ids : TriggerId → TriggerId) : Grammar σ :=
  ⟨fun catalog path id node => grammar.compile catalog path (ids id) node⟩

/-- What a block compiles to depends on the identity in nothing but the identity. -/
def Blind [Structure σ] (ρ : Renaming σ) (grammar : Grammar σ) : Prop :=
  ∀ catalog path id node, grammar.compile catalog path (ρ.ids id) node
    = (grammar.compile catalog path id node).map ρ.self

end Grammar

/-- An identity is only put into a trigger. -/
theorem Demo.trigger_renamed (ids : TriggerId → TriggerId) (catalog : Catalog) (script : Path)
    (id : TriggerId) (node : Node) :
    trigger catalog script (ids id) node
      = (trigger catalog script id node).map (Trigger.renamed ids) := by
  cases node with
  | entry line key => rfl
  | block line key children =>
    simp only [trigger]
    cases Header.read key with
    | error e => rfl
    | ok header =>
      simp only
      split
      · rfl
      · cases statements script children <;> rfl

theorem Demo.blind_grammar {ids : TriggerId → TriggerId} (hids : Function.Injective ids) :
    grammar.Blind (Handler.renaming ids hids) := by
  intro catalog path id node
  have htrigger := trigger_renamed ids catalog path id node
  simp only [grammar, Handler.renaming, htrigger]
  cases trigger catalog path id node <;> rfl

/-- The surroundings when identities are given out otherwise, in another order of getting on. -/
def Surroundings.numbered (env : Surroundings σ) (ids : TriggerId → TriggerId)
    (schedule : List Nat) : Surroundings σ :=
  { env with grammar := env.grammar.numbered ids, schedule }

namespace Construct

theorem structure?_map (f : σ → σ) (compiled : Compiled σ) :
    structure? (compiled.map f) = (structure? compiled).map f := by
  obtain ⟨problems, result⟩ := compiled
  cases result <;> rfl

theorem flaws_map (f : σ → σ) (path : Path) (node : Node) (compiled : Compiled σ) :
    flaws path node (compiled.map f) = flaws path node compiled := by
  obtain ⟨problems, result⟩ := compiled
  cases result <;> rfl

theorem structuresOf_map (f : σ → σ) (blocks : List (Node × Compiled σ)) :
    structuresOf (blocks.map (Prod.map id (Compiled.map f))) = (structuresOf blocks).map f := by
  simp only [structuresOf, List.filterMap_map, List.map_filterMap, Function.comp_def, Prod.map_snd,
    structure?_map]

/-- What is seen of the construction of a script in a scope that never fails. -/
def story (census : Census) (file : Tree × List (Node × Compiled σ)) : List Occurrence :=
  .scopeOpened :: (script file.1.path census file.2).occurrences ++ [.scopeClosed]

/-- There are no identities in it. -/
theorem story_map (f : σ → σ) (census : Census) (file : Tree × List (Node × Compiled σ)) :
    story census (file.1, file.2.map (Prod.map id (Compiled.map f))) = story census file := by
  simp only [story, script, structuresOf_map, List.length_map, List.flatMap_map, Prod.map_fst,
    Prod.map_snd, id_eq, flaws_map]
  rfl

variable [Structure σ] {ρ : Renaming σ} {grammar : Grammar σ} (hg : grammar.Blind ρ)

include hg

theorem compileAll_numbered (catalog : Catalog) (path : Path) : ∀ (first : Nat) (nodes : List Node),
    compileAll (grammar.numbered ρ.ids) catalog path first nodes
      = (compileAll grammar catalog path first nodes).map (Prod.map id (Compiled.map ρ.self))
  | _, [] => rfl
  | first, node :: rest => by
    have hcompile : (grammar.numbered ρ.ids).compile catalog path first node
        = (grammar.compile catalog path first node).map ρ.self := hg ..
    simp only [compileAll, hcompile, identities, structure?_map, Option.isSome_map,
      compileAll_numbered, List.map_cons, Prod.map_apply, id_eq]

theorem compiled_numbered (catalog : Catalog) : ∀ (first : Nat) (trees : List Tree),
    compiled (grammar.numbered ρ.ids) catalog first trees
      = (compiled grammar catalog first trees).map fun file =>
          (file.1, file.2.map (Prod.map id (Compiled.map ρ.self)))
  | _, [] => rfl
  | first, tree :: rest => by
    simp only [compiled, compileAll_numbered hg, structuresOf_map, List.length_map,
      compiled_numbered, List.map_cons]

end Construct

/-! ## Callbacks -/

namespace Occurrence

/-- A call of a structure, or a notification of an observer. -/
def callback? : Occurrence → Option Occurrence
  | o@(called ..) | o@(batchStarted _) | o@(scriptLoaded ..) | o@(scriptUnloaded _) => some o
  | _ => none

/-- The calls and notifications among occurrences. -/
def callbacks (os : List Occurrence) : List Occurrence := os.filterMap callback?

theorem callbacks_append (os more : List Occurrence) :
    callbacks (os ++ more) = callbacks os ++ callbacks more := List.filterMap_append

/-- There are no identities in callbacks. -/
theorem callbacks_renamed (ids : TriggerId → TriggerId) (os : List Occurrence) :
    callbacks (os.map (renamed ids)) = callbacks os := by
  rw [callbacks, List.filterMap_map]
  refine List.filterMap_congr fun o _ => ?_
  cases o <;> rfl

/-- And none in reports. -/
theorem problems_renamed (ids : TriggerId → TriggerId) (os : List Occurrence) :
    problems (os.map (renamed ids)) = problems os := by
  rw [problems, List.filterMap_map]
  refine List.filterMap_congr fun o _ => ?_
  cases o <;> rfl

/-- Nobody is called or notified while a script is constructed. -/
theorem callbacks_story (census : Census) (file : Tree × List (Node × Compiled σ)) :
    callbacks (Construct.story census file) = [] := by
  refine List.filterMap_eq_nil_iff.2 fun o ho => ?_
  simp only [Construct.story, Construct.script, List.cons_append, List.append_assoc, List.mem_cons,
    List.mem_append, List.mem_map, List.not_mem_nil, or_false, false_or] at ho
  rcases ho with rfl | ⟨problem, -, rfl⟩ | rfl | rfl <;> rfl

end Occurrence

namespace Runtime

/-- What is seen of construction in a scope that never fails is what is seen of each script, in
some interleaving. -/
theorem trace_construct {env : Surroundings σ} (hs : env.scope.Untroubled) (rt : Runtime σ)
    (trees : List Tree) :
    ∃ seen, (rt.construct env trees).1.trace
        = rt.trace ++ .constructing trees.length rt.workers :: seen ∧
      seen.Perm ((Construct.compiled env.grammar rt.router.catalog rt.issued trees).flatMap
        (Construct.story rt.registry.census)) ∧
      Occurrence.callbacks seen = [] := by
  have hworks : ∀ work ∈ (Construct.scripts env.grammar rt.router.catalog rt.registry.census
      rt.issued trees).1, ∃ script, work.result = .ok script := by
    rw [Construct.scripts_eq]
    intro work hw
    obtain ⟨file, -, rfl⟩ := List.mem_map.1 hw
    exact ⟨_, rfl⟩
  have hstories : ((Construct.scripts env.grammar rt.router.catalog rt.registry.census rt.issued
        trees).1.flatMap fun work => .scopeOpened :: work.occurrences ++ [.scopeClosed])
      = (Construct.compiled env.grammar rt.router.catalog rt.issued trees).flatMap
          (Construct.story rt.registry.census) := by
    rw [Construct.scripts_eq]
    exact List.flatMap_map ..
  have hseen := Task.seen_untroubled rt.registry.census
    (if rt.workers = 0 then [] else env.schedule) _ {} hs hworks
  rw [hstories] at hseen
  refine ⟨_, rfl, hseen, List.filterMap_eq_nil_iff.2 fun o ho => ?_⟩
  obtain ⟨file, -, hstory⟩ := List.mem_flatMap.1 (hseen.mem_iff.1 ho)
  exact List.filterMap_eq_nil_iff.1 (Occurrence.callbacks_story _ file) o hstory

/-- The runtime with another number of workers. -/
def onWorkers (rt : Runtime σ) (workers : Nat) : Runtime σ := { rt with workers }

variable [Structure σ]

section

variable {ρ : Renaming σ} {env : Surroundings σ} (hs : env.scope.Untroubled)
  (hg : env.grammar.Blind ρ) (rt : Runtime σ) (workers : Nat) (schedule : List Nat)
  (paths : List Path)

include hs hg

/-- The scripts that are constructed are the same but for the identities. -/
theorem scripts_on_workers :
    ((rt.onWorkers workers).constructed (env.numbered ρ.ids schedule) paths).2.1
      = ((rt.onWorkers 0).constructed env paths).2.1.map (Script.map ρ.self) := by
  have hs' : (env.numbered ρ.ids schedule).scope.Untroubled := hs
  rw [constructed_untroubled hs, constructed_untroubled hs', List.map_map]
  show (Construct.compiled (env.grammar.numbered ρ.ids) rt.router.catalog rt.issued _).map _ = _
  rw [Construct.compiled_numbered hg, List.map_map]
  refine List.map_congr_left fun file _ => ?_
  exact congrArg (Script.mk file.1.path) (Construct.structuresOf_map ρ.self file.2)

/-- What is seen of construction is the same but for the order, and none of it is a callback. -/
theorem trace_on_workers : ∃ before seen seen',
    ((rt.onWorkers 0).constructed env paths).1.trace = before ++ seen ∧
      ((rt.onWorkers workers).constructed (env.numbered ρ.ids schedule) paths).1.trace
        = before ++ seen' ∧
      Occurrence.callbacks seen = [] ∧ Occurrence.callbacks seen' = [] ∧
      (Occurrence.problems seen').Perm (Occurrence.problems seen) := by
  have hs' : (env.numbered ρ.ids schedule).scope.Untroubled := hs
  obtain ⟨seen, htrace, hseen, hcallbacks⟩ := trace_construct hs
    ((rt.onWorkers 0).afterReading env.files paths)
    (Batch.trees env.files (Batch.resolved env.files paths))
  obtain ⟨seen', htrace', hseen', hcallbacks'⟩ := trace_construct hs'
    ((rt.onWorkers workers).afterReading env.files paths)
    (Batch.trees env.files (Batch.resolved env.files paths))
  have hperm : seen'.Perm seen := by
    refine hseen'.trans (.trans (.of_eq ?_) hseen.symm)
    show (Construct.compiled (env.grammar.numbered ρ.ids) _ _ _).flatMap _ = _
    rw [Construct.compiled_numbered hg, List.flatMap_map]
    exact List.flatMap_congr fun file _ => Construct.story_map ρ.self _ file
  exact ⟨_, _, _, htrace, htrace', hcallbacks, hcallbacks', hperm.filterMap Occurrence.problem?⟩

end

/-- A batch has come to the same as another, but for the identities and the order of the reports. -/
structure SameLoad (ρ : Renaming σ) (alone pooled : Runtime σ × Except Interruption Tally) :
    Prop where
  result : pooled.2 = alone.2
  callbacks : Occurrence.callbacks pooled.1.trace = Occurrence.callbacks alone.1.trace
  registry : pooled.1.registry = alone.1.registry.map ρ.self
  router : pooled.1.router = alone.1.router.renamed ρ.ids
  problems : (Occurrence.problems pooled.1.trace).Perm (Occurrence.problems alone.1.trace)

/-- **The number of workers does not matter**, nor does the order in which they get on, nor that in
which identities are given out, as long as whatever is bound or loaded keeps its own. -/
theorem load_on_workers {ρ : Renaming σ} {env : Surroundings σ} (hs : env.scope.Untroubled)
    (hg : env.grammar.Blind ρ) {rt : Runtime σ}
    (hbound : ∀ id, rt.router.contains id = true → ρ.ids id = id)
    (hloaded : ∀ script ∈ rt.registry.loaded, ∀ s ∈ script.structures, ρ.self s = s)
    (workers : Nat) (schedule : List Nat) (paths : List Path) :
    SameLoad ρ ((rt.onWorkers 0).load env paths)
      ((rt.onWorkers workers).load (env.numbered ρ.ids schedule) paths) := by
  have hrouter := Router.renamed_of_kept hbound
  have hregistry := Registry.map_of_kept ρ.self hloaded
  cases hv : rt.registry.violation? [] (Batch.resolved env.files paths) with
  | some violation =>
    have halone : (rt.onWorkers 0).registry.violation? [] (Batch.resolved env.files paths)
        = some violation := hv
    have hpooled : (rt.onWorkers workers).registry.violation? []
        (Batch.resolved (env.numbered ρ.ids schedule).files paths) = some violation := hv
    rw [load_eq, load_eq, halone, hpooled]
    exact ⟨rfl, rfl, hregistry.symm, hrouter.symm, .refl _⟩
  | none =>
    have halone : (rt.onWorkers 0).registry.violation? [] (Batch.resolved env.files paths)
        = none := hv
    have hpooled : (rt.onWorkers workers).registry.violation? []
        (Batch.resolved (env.numbered ρ.ids schedule).files paths) = none := hv
    obtain ⟨before, seen, seen', htrace, htrace', hcallbacks, hcallbacks', hproblems⟩ :=
      trace_on_workers hs hg rt workers schedule paths
    have hstart : Renames ρ (before ++ seen) (before ++ seen')
        ((rt.onWorkers 0).constructed env paths).1
        ((rt.onWorkers workers).constructed (env.numbered ρ.ids schedule) paths).1 :=
      ⟨hrouter.symm, hregistry.symm, [], by simp [htrace], by simp [htrace']⟩
    obtain ⟨⟨hrouter', hregistry', os, hos, hos'⟩, hresult⟩ := hstart.finish hs
      ((rt.onWorkers 0).constructed env paths).2.1 ((rt.onWorkers 0).constructed env paths).2.2
      ((rt.onWorkers workers).constructed (env.numbered ρ.ids schedule) paths).2.2
    rw [← scripts_on_workers hs hg rt workers schedule paths] at hrouter' hregistry' hos' hresult
    rw [load_of_admitted halone, load_of_admitted hpooled]
    constructor
    case result => exact hresult
    case router => exact hrouter'
    case registry => exact hregistry'
    case callbacks =>
      show Occurrence.callbacks (Runtime.finish _ env.scope _ _).1.trace = _
      rw [hos, hos']
      simp only [Occurrence.callbacks_append, Occurrence.callbacks_renamed, hcallbacks, hcallbacks']
    case problems =>
      show (Occurrence.problems (Runtime.finish _ env.scope _ _).1.trace).Perm _
      rw [hos, hos']
      simp only [Occurrence.problems_append, Occurrence.problems_renamed]
      exact (hproblems.append_left _).append_right _

/-- A trigger, and a loader that has loaded a script with it. -/
def joinTrigger : Trigger := { id := 1, name := "on join", script := ⟨"/c.sk"⟩, kinds := ["join"] }

def joined : Runtime Handler where
  router := { catalog := Demo.catalog, bindings := [⟨⟨0, .standard⟩, [joinTrigger]⟩] }
  registry := { loaded := [⟨⟨"/c.sk"⟩, [{ trigger := joinTrigger }]⟩] }
  issued := 2

/-- Two scripts with a trigger each. -/
def twoScripts : FileSystem :=
  { entries := [(["b.sk"], .file (.text "on quit:\n  bye\n")),
      (["a.sk"], .file (.text "on join:\n  hi\n"))] }

theorem resolved_twoScripts :
    Batch.resolved twoScripts [⟨"/a.sk"⟩, ⟨"/b.sk"⟩] = [⟨"/a.sk"⟩, ⟨"/b.sk"⟩] := by
  have ha : twoScripts.canonical ⟨"/a.sk"⟩ = .ok ⟨"/a.sk"⟩ :=
    FileSystem.canonical_of_file "a.sk" (by decide +kernel) (by decide +kernel) ⟨_, rfl⟩
  have hb : twoScripts.canonical ⟨"/b.sk"⟩ = .ok ⟨"/b.sk"⟩ :=
    FileSystem.canonical_of_file "b.sk" (by decide +kernel) (by decide +kernel) ⟨_, rfl⟩
  rw [Batch.resolved_cons ha, Batch.resolved_cons hb]
  rfl

/-- The second script may be first on two workers, and be given the first identity. -/
theorem load_on_two_workers :
    let ρ := Handler.renaming (Equiv.swap 2 3) (Equiv.injective _)
    let env : Surroundings Handler := ⟨Demo.grammar, twoScripts, {}, []⟩
    let paths : List Path := [⟨"/a.sk"⟩, ⟨"/b.sk"⟩]
    (∃ tally, ((joined.onWorkers 0).load env paths).2 = .ok tally) ∧
      SameLoad ρ ((joined.onWorkers 0).load env paths)
        ((joined.onWorkers 2).load (env.numbered ρ.ids [1, 1, 0, 1]) paths) := by
  have hs : ({} : Scope).Untroubled := ⟨fun _ => rfl, fun _ => rfl⟩
  have hbound : ∀ id, joined.router.contains id = true → Equiv.swap 2 3 id = id := by
    intro id hid
    obtain rfl : 1 = id := by simpa [joined, joinTrigger, Router.contains] using hid
    rfl
  have hloaded : ∀ script ∈ joined.registry.loaded, ∀ s ∈ script.structures,
      (Handler.renaming (Equiv.swap 2 3) (Equiv.injective _)).self s = s := by
    simp only [joined, List.mem_singleton, forall_eq]
    rfl
  refine ⟨(load_ok_iff _ _ _).2 ((runs_iff hs).2 ?_), load_on_workers hs (Demo.blind_grammar _)
    hbound hloaded 2 _ _⟩
  rw [resolved_twoScripts]
  decide +kernel

end Runtime

end EventScripts
