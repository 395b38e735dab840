import EventScripts.Registry.Basic
import EventScripts.Router.Basic
import EventScripts.Source.Node
/-!
# Structures

A structure is what a top-level block of a script is compiled to. In each phase
of its life it acts through the runtime: it may bind and release triggers, look
at the router, enter a script into the registry and make remarks, in an order
that may depend on the answers. An `Action` is such a course of action; it ends
with a verdict, and with the structure as it is afterwards.

A grammar compiles blocks to structures.

The `Structure` of `SPEC_FULL.md` §3 and the structure parser (`Grammar`) of §6.
-/

namespace EventScripts

/-- A course of action of a structure. The verdict tells whether the structure stays, or the fault
that ended the action; whatever was done before it stays done. -/
inductive Action (σ : Type) where
  | finish (verdict : Except Fault Bool) (self : σ)
  | bind (trigger : Trigger) (next : Except BindError Unit → Action σ)
  | release (id : TriggerId) (next : Bool → Action σ)
  | enroll (script : Script σ) (next : Except Violation Unit → Action σ)
  | look (next : Router → Action σ)
  | remark (remark : Remark) (next : Action σ)

/-- The types whose values are structures. -/
class Structure (σ : Type) where
  name : σ → String
  /-- Structures of lower priority go first in the first phase. -/
  priority : σ → Int
  /-- What the structure does in a phase, given the path of its script. -/
  act : Phase → Path → σ → Action σ

/-- The priority of structures that ask for none. -/
def standardPriority : Int := 1000

/-- What compiling a block comes to: problems that the grammar reports itself, and a structure, or
nothing, or a fault. -/
structure Compiled (σ : Type) where
  problems : List Problem := []
  result : Except Fault (Option σ)

/-- A grammar, which compiles one top-level block of a script. The number is an identity that
nothing else has been given. -/
structure Grammar (σ : Type) where
  compile : Catalog → Path → Nat → Node → Compiled σ

end EventScripts
