import EventScripts.Loader.Runtime
import EventScripts.Pool.Bracket
import EventScripts.Source.Outline
/-!
# Construction of scripts

The top-level blocks of a file are compiled one by one. A block that does not
compile is reported and left out, the others carry on; so constructing a script
never faults.

Step 3 of the `LoadPipeline`, `SPEC_FULL.md` §4.2.
-/

namespace EventScripts

/-- A file as it was read: its path and its top-level blocks. -/
structure Tree where
  path : Path
  nodes : List Node

namespace Construct

variable {σ : Type}

/-- The report of a block that does not compile. -/
def flaws (path : Path) (node : Node) (compiled : Compiled σ) : List Problem :=
  match compiled.result with
  | .ok _ => []
  | .error fault => [.malformed path (some node.line) (.uncompiled fault)]

/-- The structure of a block, if it has one. -/
def structure? (compiled : Compiled σ) : Option σ :=
  match compiled.result with
  | .ok self => self
  | .error _ => none

/-- How many identities a compiled block takes: one if it has a structure. -/
def identities (compiled : Compiled σ) : Nat := if (structure? compiled).isSome then 1 else 0

/-- The blocks of a file with what they compile to; the identities start at `first`. -/
def compileAll (grammar : Grammar σ) (catalog : Catalog) (path : Path) :
    Nat → List Node → List (Node × Compiled σ)
  | _, [] => []
  | first, node :: rest =>
    let compiled := grammar.compile catalog path first node
    (node, compiled) :: compileAll grammar catalog path (first + identities compiled) rest

/-- The structures of compiled blocks. -/
def structuresOf (blocks : List (Node × Compiled σ)) : List σ :=
  blocks.filterMap fun b => structure? b.2

/-- The work of constructing a script. -/
def script (path : Path) (census : Census) (blocks : List (Node × Compiled σ)) :
    Work (Script σ) :=
  let structures := structuresOf blocks
  let problems := blocks.flatMap fun b => b.2.problems ++ flaws path b.1 b.2
  { occurrences := problems.map (Occurrence.reported · census)
      ++ [.constructed path structures.length]
    result := .ok ⟨path, structures⟩ }

/-- The work of constructing the scripts of a batch, each structure with an identity of its own;
the first identity that is left is the second result. -/
def scripts (grammar : Grammar σ) (catalog : Catalog) (census : Census) :
    Nat → List Tree → List (Work (Script σ)) × Nat
  | first, [] => ([], first)
  | first, tree :: rest =>
    let blocks := compileAll grammar catalog tree.path first tree.nodes
    let (works, next) :=
      scripts grammar catalog census (first + (structuresOf blocks).length) rest
    (script tree.path census blocks :: works, next)

end Construct

end EventScripts
