/-!
# Script text as a forest

A script file is an outline. A line is an entry, or opens a section that holds
the more deeply indented lines after it.

The nodes of the `SourceTree`, `SPEC_FULL.md` §10.6.
-/

namespace EventScripts

/-- A line of a script with its number; a section with everything in it. -/
inductive Node where
  | entry (line : Nat) (key : String)
  | block (line : Nat) (key : String) (children : List Node)
deriving Repr

namespace Node

def key : Node → String
  | entry _ key | block _ key _ => key

def line : Node → Nat
  | entry line _ | block line _ _ => line

def children : Node → List Node
  | entry .. => []
  | block _ _ children => children

mutual

/-- A node and everything in it, in the order of the lines, with the depth of each. -/
def preorder (depth : Nat) : Node → List (Nat × Node)
  | entry line key => [(depth, entry line key)]
  | block line key children => (depth, block line key children) :: preorderList (depth + 1) children

/-- The nodes of a forest in the order of the lines, with the depth of each. -/
def preorderList (depth : Nat) : List Node → List (Nat × Node)
  | [] => []
  | node :: rest => preorder depth node ++ preorderList depth rest

end

end Node

end EventScripts
