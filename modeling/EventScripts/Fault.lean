/-!
# Faults

What a piece of code that belongs to someone else (a statement, a callback of a
structure, a grammar, a resource scope) may end with instead of a result: a
failure that it returns, or a panic that unwinds out of it.

`SPEC_FULL.md` §10.3: the errors and the panics of collaborators.
-/

namespace EventScripts

/-- A failure carries its message with all contexts, outermost first. The payload of a panic is
a text, or something that cannot be shown. -/
inductive Fault where
  | failure (message : String)
  | panic (text : Option String)
deriving DecidableEq, Repr

namespace Fault

/-- The fault in words. -/
def message : Fault → String
  | failure message => message
  | panic (some text) => "panicked: " ++ text
  | panic none => "panicked"

/-- A failure inside a described activity; a panic keeps no description. -/
def within (activity : String) : Fault → Fault
  | failure message => failure (activity ++ ": " ++ message)
  | panic text => panic text

end Fault

end EventScripts
