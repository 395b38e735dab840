import EventScripts.Path.Basic
/-!
# Scripts

A script is a file with the structures that its top-level blocks were compiled
to, in the order of the file.

The `Script` and the `LoadSummary` (`Tally`) of `SPEC_FULL.md` §3.
-/

namespace EventScripts

/-- A script with its structures. -/
structure Script (σ : Type) where
  path : Path
  structures : List σ := []

/-- A number of files and a number of structures. -/
structure Tally where
  files : Nat := 0
  structures : Nat := 0
deriving DecidableEq, Repr, Inhabited

namespace Tally

instance : Add Tally where
  add a b := ⟨a.files + b.files, a.structures + b.structures⟩

/-- The difference, each number of it being zero at least. -/
instance : Sub Tally where
  sub a b := ⟨a.files - b.files, a.structures - b.structures⟩

/-- The sum of a list of tallies. -/
def sum (tallies : List Tally) : Tally := tallies.foldl (· + ·) {}

end Tally

/-- One file and its structures. -/
def Script.tally {σ : Type} (script : Script σ) : Tally := ⟨1, script.structures.length⟩

end EventScripts
