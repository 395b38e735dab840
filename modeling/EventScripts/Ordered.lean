/-!
# Ordered lists

A finite set in the order given by a comparison, kept as a list in strictly
increasing order. Elements that compare equal count as one, and the one that
came first stays.

The two sets of the `ScriptRegistry` (`SPEC_FULL.md` §4.4) are kept in this way.
-/

namespace EventScripts.Ordered

variable {α : Type}

/-- Adds an element unless an equal one is there. -/
def insert (cmp : α → α → Ordering) (x : α) : List α → List α
  | [] => [x]
  | y :: ys =>
    match cmp x y with
    | .lt => x :: y :: ys
    | .eq => y :: ys
    | .gt => y :: insert cmp x ys

/-- Whether an equal element is there. -/
def contains (cmp : α → α → Ordering) (x : α) (ys : List α) : Bool :=
  ys.any fun y => cmp x y == .eq

/-- Removes the elements equal to `x`. -/
def erase (cmp : α → α → Ordering) (x : α) (ys : List α) : List α :=
  ys.filter fun y => cmp x y != .eq

/-- The elements of a list in order, of equal ones the first. -/
def ofList (cmp : α → α → Ordering) (xs : List α) : List α :=
  xs.foldl (fun ys x => insert cmp x ys) []

end EventScripts.Ordered
