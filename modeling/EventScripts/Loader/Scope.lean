import EventScripts.Fault
/-!
# Resource scopes

A resource scope is opened before a piece of work and closed after it. Nothing
is known about it but what its calls come to; openings and closings are counted
separately from zero.

The scoped resource of `SPEC_FULL.md` §6.
-/

namespace EventScripts

/-- A scope, by what its n-th opening and its n-th closing come to. -/
structure Scope where
  opening : Nat → Except Fault Unit := fun _ => .ok ()
  closing : Nat → Except Fault Unit := fun _ => .ok ()

/-- How often a scope has been opened and closed. -/
structure ScopeUse where
  opened : Nat := 0
  closed : Nat := 0
deriving DecidableEq, Repr

namespace Scope

/-- Opens the scope. -/
def openOnce (scope : Scope) (use : ScopeUse) : ScopeUse × Except Fault Unit :=
  ({ use with opened := use.opened + 1 }, scope.opening use.opened)

/-- Closes the scope. -/
def closeOnce (scope : Scope) (use : ScopeUse) : ScopeUse × Except Fault Unit :=
  ({ use with closed := use.closed + 1 }, scope.closing use.closed)

end Scope

end EventScripts
