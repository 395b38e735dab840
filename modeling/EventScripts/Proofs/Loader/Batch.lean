import EventScripts.Loader.Basic
import EventScripts.Proofs.Loader.Seen
import EventScripts.Proofs.Pool.Fates
import EventScripts.Proofs.Registry.Entries
/-!
# The parts of a batch

A batch goes through resolving, reading and construction before it is activated,
and is entered into the registry afterwards. Each of these parts is a function
of what it is given, and adds reports to the trace: `resolveAll_eq`,
`readAll_eq`, `construct_eq` and `enterAll_spec` say which.
-/

namespace EventScripts

namespace Batch

/-- The paths of a batch that resolve, as they resolve. -/
def resolved (files : FileSystem) (paths : List Path) : List Path :=
  paths.filterMap fun path => (files.canonical path).toOption

/-- The reports of those that do not. -/
def unresolved (files : FileSystem) (paths : List Path) : List Problem :=
  paths.flatMap fun path =>
    match files.canonical path with
    | .ok _ => []
    | .error e => [.unreadable path e]

/-- The files that can be read and parsed. -/
def trees (files : FileSystem) (paths : List Path) : List Tree :=
  paths.filterMap fun path => (Runtime.readTree files path).2.toOption

/-- What reading a file reports: what the parser finds, and a problem that keeps the file from
being loaded. -/
def readReports (files : FileSystem) (path : Path) : List Problem :=
  (Runtime.readTree files path).1 ++
    match (Runtime.readTree files path).2 with
    | .ok _ => []
    | .error problem => [problem]

/-- What a path resolves to stands in front of what the others resolve to. -/
theorem resolved_cons {files : FileSystem} {path leading : Path}
    (h : files.canonical path = .ok leading) (paths : List Path) :
    resolved files (path :: paths) = leading :: resolved files paths :=
  List.filterMap_cons_some (congrArg Except.toOption h)

end Batch

/-! ## Construction -/

/-- A script as it is constructed: its file, the blocks with what they compile to, and the fate of
the task. -/
structure Built (σ : Type) where
  tree : Tree
  blocks : List (Node × Compiled σ)
  fate : Fate

namespace Fate

/-- The fault of a scope that does not open or does not close. -/
def fault? (fate : Fate) : Option Fault :=
  match fate.opening, fate.closing with
  | .error fault, _ | .ok (), .error fault => some fault
  | .ok (), .ok () => none

end Fate

namespace Built

variable {σ : Type}

/-- The script, unless its scope faults. -/
def script? (b : Built σ) : Option (Script σ) :=
  match b.fate.fault? with
  | none => some ⟨b.tree.path, Construct.structuresOf b.blocks⟩
  | some _ => none

/-- What is reported of the blocks, and of a scope that faults; nothing is compiled in a scope
that does not open. -/
def reports (b : Built σ) : List Problem :=
  (match b.fate.opening with
  | .ok () => b.blocks.flatMap fun block =>
      block.2.problems ++ Construct.flaws b.tree.path block.1 block.2
  | .error _ => []) ++ b.fate.fault?.toList.map fun fault => .workFailed (.work fault)

theorem verdict_script (b : Built σ) (census : Census) :
    ((b.fate.verdict (Construct.script b.tree.path census b.blocks)).mapError
      WorkFault.work).toOption = b.script? := by
  obtain ⟨tree, blocks, opening, closing⟩ := b
  cases opening <;> cases closing <;> rfl

/-- What is seen of the construction of a script is its reports, and no call. -/
theorem seen_story (b : Built σ) (census : Census) :
    Occurrence.calls (b.fate.story census (Construct.script b.tree.path census b.blocks)) = [] ∧
      Occurrence.problems (b.fate.story census (Construct.script b.tree.path census b.blocks))
        = b.reports := by
  obtain ⟨tree, blocks, opening, closing⟩ := b
  -- the reports of the blocks are followed by nothing but the report of a scope that faults
  have hwork : ∀ (ps : List Problem) (rest : List Occurrence),
      Occurrence.calls (ps.map (Occurrence.reported · census) ++ rest) = Occurrence.calls rest ∧
        Occurrence.problems (ps.map (Occurrence.reported · census) ++ rest)
          = ps ++ Occurrence.problems rest := fun ps rest => by
    rw [Occurrence.calls_append, Occurrence.problems_append, Occurrence.calls_reported,
      Occurrence.problems_reported, List.nil_append]
    exact ⟨rfl, rfl⟩
  cases opening with
  | error fault => exact ⟨rfl, rfl⟩
  | ok _ =>
    simp only [Fate.story, Construct.script, List.cons_append, List.append_assoc]
    cases closing with
    | error fault => exact hwork _ [.constructed _ _, .scopeClosed, _]
    | ok _ => exact hwork _ [.constructed _ _, .scopeClosed]

end Built

namespace Construct

variable {σ : Type}

/-- The files of a batch with their blocks and what these compile to, each structure with an
identity of its own. -/
def compiled (grammar : Grammar σ) (catalog : Catalog) :
    Nat → List Tree → List (Tree × List (Node × Compiled σ))
  | _, [] => []
  | first, tree :: rest =>
    let blocks := compileAll grammar catalog tree.path first tree.nodes
    (tree, blocks) :: compiled grammar catalog (first + (structuresOf blocks).length) rest

theorem scripts_eq (grammar : Grammar σ) (catalog : Catalog) (census : Census) :
    ∀ (first : Nat) (trees : List Tree),
      (scripts grammar catalog census first trees).1
        = (compiled grammar catalog first trees).map fun t => script t.1.path census t.2
  | _, [] => rfl
  | first, tree :: rest => by
    simp only [scripts, compiled, List.map_cons]
    rw [scripts_eq]

theorem map_tree_compiled (grammar : Grammar σ) (catalog : Catalog) :
    ∀ (first : Nat) (trees : List Tree), (compiled grammar catalog first trees).map (·.1) = trees
  | _, [] => rfl
  | first, tree :: rest => by
    rw [compiled, List.map_cons, map_tree_compiled]

theorem map_node_compileAll (grammar : Grammar σ) (catalog : Catalog) (path : Path) :
    ∀ (first : Nat) (nodes : List Node),
      (compileAll grammar catalog path first nodes).map (·.1) = nodes
  | _, [] => rfl
  | first, node :: rest => by
    rw [compileAll, List.map_cons, map_node_compileAll]

theorem exists_of_mem_compileAll (grammar : Grammar σ) (catalog : Catalog) (path : Path) :
    ∀ {first : Nat} {nodes : List Node}, ∀ block ∈ compileAll grammar catalog path first nodes,
      ∃ id, block.2 = grammar.compile catalog path id block.1
  | first, node :: rest, block, h => by
    rcases List.mem_cons.1 h with rfl | h
    · exact ⟨first, rfl⟩
    · exact exists_of_mem_compileAll grammar catalog path block h

/-- **The blocks of a file are compiled one by one**, each by itself, in the order of the file. -/
theorem compiled_blocks (grammar : Grammar σ) (catalog : Catalog) :
    ∀ {first : Nat} {trees : List Tree}, ∀ file ∈ compiled grammar catalog first trees,
      file.2.map (·.1) = file.1.nodes ∧
        ∀ block ∈ file.2, ∃ id, block.2 = grammar.compile catalog file.1.path id block.1
  | first, tree :: rest, file, h => by
    rcases List.mem_cons.1 h with rfl | h
    · exact ⟨map_node_compileAll grammar catalog tree.path first tree.nodes,
        exists_of_mem_compileAll grammar catalog tree.path⟩
    · exact compiled_blocks grammar catalog file h

/-- Fates of the works of files are fates of the files. -/
theorem exists_built (census : Census) : ∀ (files : List (Tree × List (Node × Compiled σ)))
    (fates : List (Work (Script σ) × Fate)),
    fates.map (·.1) = files.map (fun t => script t.1.path census t.2) →
    ∃ built : List (Built σ), built.map (fun b => (b.tree, b.blocks)) = files ∧
      fates = built.map fun b => (script b.tree.path census b.blocks, b.fate)
  | [], fates, h => ⟨[], rfl, by simpa using h⟩
  | file :: files, [], h => by simp at h
  | file :: files, fate :: fates, h => by
    obtain ⟨hwork, hrest⟩ := List.cons.inj h
    obtain ⟨built, hfiles, hfates⟩ := exists_built census files fates hrest
    refine ⟨⟨file.1, file.2, fate.2⟩ :: built, by simp [hfiles], ?_⟩
    rw [List.map_cons, ← hfates]
    exact congrArg (· :: fates) (Prod.ext hwork rfl)

end Construct

/-! ## The parts in a runtime -/

namespace Runtime

variable {σ : Type}

theorem record_record (rt : Runtime σ) (os more : List Occurrence) :
    (rt.record os).record more = rt.record (os ++ more) := by
  simp [record]

/-- Reports problems one after another. -/
theorem foldl_report : ∀ (ps : List Problem) (rt : Runtime σ),
    ps.foldl report rt = rt.record (ps.map (Occurrence.reported · rt.registry.census))
  | [], rt => by simp [record]
  | p :: ps, rt => by
    rw [List.foldl_cons, foldl_report ps, report, record_record]
    rfl

theorem resolveAll_eq (files : FileSystem) : ∀ (paths : List Path) (rt : Runtime σ),
    rt.resolveAll files paths
      = (rt.record ((Batch.unresolved files paths).map (.reported · rt.registry.census)),
        Batch.resolved files paths)
  | [], rt => by simp [resolveAll, Batch.unresolved, Batch.resolved, record]
  | path :: rest, rt => by
    unfold resolveAll
    cases h : files.canonical path with
    | ok path' =>
      simp only [resolveAll_eq files rest]
      simp [Batch.unresolved, Batch.resolved_cons h, h]
    | error e =>
      simp only [resolveAll_eq files rest, report, record_record]
      simp [Batch.unresolved, Batch.resolved, h, Except.toOption, record]

theorem readAll_eq (files : FileSystem) : ∀ (paths : List Path) (rt : Runtime σ),
    rt.readAll files paths
      = (rt.record ((paths.flatMap (Batch.readReports files)).map
          (.reported · rt.registry.census)), Batch.trees files paths)
  | [], rt => by simp [readAll, Batch.trees, record]
  | path :: rest, rt => by
    unfold readAll
    simp only [foldl_report]
    cases h : (readTree files path).2 with
    | ok tree =>
      simp only [readAll_eq files rest, record_record]
      simp [Batch.readReports, Batch.trees, h, Except.toOption, record]
    | error problem =>
      simp only [readAll_eq files rest, report, record_record]
      simp [Batch.readReports, Batch.trees, h, Except.toOption, record]

/-- **Construction**: the script of each file, unless its scope faults; and exactly one report of
each block that does not compile and of each scope that faults. -/
theorem construct_eq [Structure σ] (rt : Runtime σ) (env : Surroundings σ) (trees : List Tree) :
    ∃ (built : List (Built σ)) (issued : Nat) (os : List Occurrence) (use : ScopeUse),
      rt.construct env trees = ({ rt with issued }.record os, built.filterMap Built.script?, use) ∧
      built.map (fun b => (b.tree, b.blocks))
        = Construct.compiled env.grammar rt.router.catalog rt.issued trees ∧
      Occurrence.calls os = [] ∧ (Occurrence.problems os).Perm (built.flatMap Built.reports) := by
  obtain ⟨fates, hworks, hresults, hseen⟩ := Task.runAll_eq env.scope
    rt.registry.census (if rt.workers = 0 then [] else env.schedule)
    (Construct.scripts env.grammar rt.router.catalog rt.registry.census rt.issued trees).1 {}
  rw [Construct.scripts_eq] at hworks
  obtain ⟨built, hfiles, rfl⟩ := Construct.exists_built _ _ _ hworks
  refine ⟨built, _, _, _, Prod.ext rfl (Prod.ext ?_ rfl), hfiles, ?_, ?_⟩
  · simp only [construct]
    rw [hresults, List.map_map, List.filterMap_map]
    exact congrArg (built.filterMap ·) (funext fun b => b.verdict_script rt.registry.census)
  · have hcalls := hseen.filterMap Occurrence.called?
    rw [List.flatMap_map, List.filterMap_flatMap, List.flatMap_eq_nil_iff.2] at hcalls
    · rw [show Occurrence.calls (Occurrence.constructing _ _ :: _) = _ from
        List.filterMap_cons_none rfl]
      exact hcalls.eq_nil
    · exact fun b _ => (b.seen_story rt.registry.census).1
  · have hproblems := hseen.filterMap Occurrence.problem?
    rw [List.flatMap_map, List.filterMap_flatMap] at hproblems
    rw [show Occurrence.problems (Occurrence.constructing _ _ :: _) = _ from
      List.filterMap_cons_none rfl]
    exact hproblems.trans (List.Perm.of_eq
      (congrArg (built.flatMap ·) (funext fun b => (b.seen_story rt.registry.census).2)))

/-! ## Entering the scripts -/

/-- The reports of the scripts whose paths are not free. -/
def refused (registry : Registry σ) (scripts : List (Script σ)) : List Problem :=
  (scripts.filter fun s => registry.isLoaded s.path).map fun s => .violated (.alreadyLoaded s.path)

theorem refused_cons_of_loaded {registry : Registry σ} {script : Script σ}
    (rest : List (Script σ)) (h : registry.isLoaded script.path = true) :
    refused registry (script :: rest)
      = .violated (.alreadyLoaded script.path) :: refused registry rest := by
  simp [refused, h]

theorem refused_cons_of_insert {registry after : Registry σ} {script : Script σ}
    {rest : List (Script σ)} (hl : registry.isLoaded script.path = false)
    (h : registry.insert script = .ok after) (ha : Registry.Apart (script :: rest)) :
    refused registry (script :: rest) = refused after rest := by
  have hf := Registry.filter_free_of_insert h ha fun b => b
  simp only [refused]
  rw [List.filter_cons_of_neg (by simp [hl]), hf]

/-- **Entering**: every script whose path is free, and one report of each other. -/
theorem enterAll_spec : ∀ (scripts : List (Script σ)) (rt : Runtime σ), Registry.Apart scripts →
    (rt.enterAll scripts).1.registry = rt.registry.enterEach scripts ∧
      (rt.enterAll scripts).1.router = rt.router ∧
      Shows rt (rt.enterAll scripts).1 [] (refused rt.registry scripts)
  | [], rt, _ => ⟨rfl, rfl, Shows.refl rt⟩
  | script :: rest, rt, ha => by
    have hrest : Registry.Apart rest := (List.pairwise_cons.1 ha).2
    simp only [Registry.enterEach, enterAll, enter]
    cases hl : rt.registry.isLoaded script.path with
    | true =>
      rw [Registry.insert_of_loaded hl, refused_cons_of_loaded rest hl]
      obtain ⟨hregistry, hrouter, hshows⟩ := enterAll_spec rest
        (rt.report (.violated (.alreadyLoaded script.path))) hrest
      exact ⟨hregistry, hrouter, (shows_report rt _).trans hshows⟩
    | false =>
      have hi := Registry.insert_of_not_loaded hl
      rw [refused_cons_of_insert hl hi ha, hi]
      generalize { loaded := _, disabled := _ : Registry σ } = registry
      obtain ⟨hregistry, hrouter, hshows⟩ := enterAll_spec rest
        (({ rt with registry }.record [.entered script.path]).record
          [.scriptLoaded script.path script.structures.length]) hrest
      have hentered : Shows rt ({ rt with registry }.record [.entered script.path])
          (Occurrence.calls [.entered script.path]) (Occurrence.problems [.entered script.path]) :=
        shows_of_trace rfl
      exact ⟨hregistry, hrouter, (hentered.trans (shows_record _ _)).trans hshows⟩

end Runtime

namespace Registry

variable {σ : Type}

/-- A batch that is not refused names different paths, none of which is loaded. -/
theorem violation?_eq_none {registry : Registry σ} : ∀ {paths seen : List Path},
    registry.violation? seen paths = none →
    (paths.Pairwise fun a b => a.components ≠ b.components) ∧
      (∀ p ∈ paths, registry.isLoaded p = false) ∧
      ∀ p ∈ paths, ∀ q ∈ seen, p.components ≠ q.components
  | [], _, _ => by simp
  | path :: rest, seen, h => by
    unfold violation? at h
    split at h
    · cases h
    · next hs =>
      split at h
      · cases h
      · next hl =>
        obtain ⟨hp, hfree, hseen⟩ := violation?_eq_none h
        have hpath : ∀ q ∈ seen, path.components ≠ q.components := by
          intro q hq hc
          exact hs (List.any_eq_true.2 ⟨q, hq, Path.same_iff.2 hc⟩)
        refine ⟨List.pairwise_cons.2 ⟨fun q hq => ?_, hp⟩, fun p hp => ?_, fun p hp => ?_⟩
        · exact (hseen q hq path (by simp)).symm
        · rcases List.mem_cons.1 hp with rfl | hp
          · simpa using hl
          · exact hfree p hp
        · rcases List.mem_cons.1 hp with rfl | hp
          · exact hpath
          · exact fun q hq => hseen p hp q (by simp [hq])

end Registry

end EventScripts
