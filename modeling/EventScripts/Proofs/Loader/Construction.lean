import EventScripts.Proofs.Loader.Undisturbed
import EventScripts.Proofs.Pool.Untroubled
/-!
# Construction in a scope that never fails

In a scope that always opens and closes, every file that has been read becomes a
script, and what it becomes depends neither on the workers nor on the order in
which they get on (`constructed_untroubled`). Such a batch runs unless it is
refused (`runs_iff`).
-/

namespace EventScripts

variable {σ : Type}

/-- The script of a file whose blocks have been compiled. -/
def Construct.scriptOf (file : Tree × List (Node × Compiled σ)) : Script σ :=
  ⟨file.1.path, structuresOf file.2⟩

namespace Runtime

variable {env : Surroundings σ}

/-- **Every file becomes its script.** -/
theorem construct_untroubled (hs : env.scope.Untroubled) (rt : Runtime σ) (trees : List Tree) :
    (rt.construct env trees).2.1
      = (Construct.compiled env.grammar rt.router.catalog rt.issued trees).map
          Construct.scriptOf := by
  simp only [construct]
  rw [Task.runAll_untroubled _ _ _ _ hs, Construct.scripts_eq, List.map_map, List.filterMap_map,
    ← List.filterMap_eq_map]
  rfl

/-- The scripts of a batch that has been constructed. -/
theorem constructed_untroubled (hs : env.scope.Untroubled) (rt : Runtime σ) (paths : List Path) :
    (rt.constructed env paths).2.1 = (Construct.compiled env.grammar rt.router.catalog rt.issued
      (Batch.trees env.files (Batch.resolved env.files paths))).map Construct.scriptOf :=
  construct_untroubled hs _ _

theorem paths_constructed (hs : env.scope.Untroubled) (rt : Runtime σ) (paths : List Path) :
    (rt.constructed env paths).2.1.map (·.path)
      = (Batch.trees env.files (Batch.resolved env.files paths)).map (·.path) := by
  rw [constructed_untroubled hs, List.map_map]
  conv_rhs => rw [← Construct.map_tree_compiled env.grammar rt.router.catalog rt.issued
    (Batch.trees env.files (Batch.resolved env.files paths)), List.map_map]
  rfl

/-- A batch that is not refused runs. -/
theorem runs_iff (hs : env.scope.Untroubled) {rt : Runtime σ} {paths : List Path} :
    rt.Runs env paths ↔ rt.registry.violation? [] (Batch.resolved env.files paths) = none := by
  refine ⟨Runs.admitted, fun h => ⟨h, hs.opens _, fun text => ?_⟩⟩
  rw [hs.closes]
  nofun

end Runtime

end EventScripts
