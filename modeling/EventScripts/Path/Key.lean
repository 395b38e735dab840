import EventScripts.Path.Basic
/-!
# The hierarchical order of script paths

Scripts are listed directory by directory: the files of a directory come before
everything in its subdirectories, and names are compared as texts otherwise. To
that end each component is tagged with whether more components follow, and the
tagged components are compared as lists, files (`false`) before directories.

The order of the `ScriptRegistry`, `SPEC_FULL.md` §4.4.
-/

namespace EventScripts.Path

/-- A component with whether more components follow it. -/
structure Ranked where
  inner : Bool
  component : Component
deriving DecidableEq, Repr

instance : Ord Ranked where
  compare a b := (compare a.inner b.inner).then (compare a.component b.component)

/-- Tags the components of a path. -/
def rank : List Component → List Ranked
  | [] => []
  | [last] => [⟨false, last⟩]
  | c :: rest => ⟨true, c⟩ :: rank rest

/-- The order in which scripts are listed. -/
def keyCompare (a b : Path) : Ordering := compare (rank a.components) (rank b.components)

end EventScripts.Path
