import EventScripts.Environment
import EventScripts.Log.Record
import EventScripts.Text.Cut
import EventScripts.Text.Decimal
/-!
# Log filters

A filter is a list of directives. A directive lets records up to a level of
verbosity through, either all of them or those whose target starts with a given
text; of the directives that concern a record the one with the longest target
decides, and of two with the same target the later one. A record that no
directive concerns does not pass.

`SPEC_FULL.md` §10.2: `EnvFilter` and `RUST_LOG`, without directives on spans.
-/

namespace EventScripts.Log

/-- Lets records whose target starts with `target` pass up to a verbosity. -/
structure Directive where
  target : List Char := []
  verbosity : Nat
deriving DecidableEq, Repr

structure Filter where
  directives : List Directive
deriving DecidableEq, Repr

namespace Directive

/-- Whether a directive concerns records of a target. -/
def concerns (directive : Directive) (target : String) : Bool :=
  directive.target.isPrefixOf target.toList

/-- The more specific of two directives, the second one if they are alike. -/
def prefer (first second : Directive) : Directive :=
  if first.target.length ≤ second.target.length then second else first

/-- The verbosity that lets everything through. -/
def unlimited : Nat := 5

/-- The words for verbosities, from nothing to everything. -/
def words : List (List Char) := ["off", "error", "warn", "info", "debug", "trace"].map String.toList

/-- A verbosity as a word in any case, or as its number. -/
def verbosity? (cs : List Char) : Option Nat :=
  match Text.digits? cs with
  | some n => if n ≤ unlimited then some n else none
  | none => words.idxOf? (cs.map Char.toLower)

/-- Whether a target may start with a character. -/
def startsTarget (c : Char) : Bool :=
  c.isAlphanum || c == '-' || c == ':' || c == '_' || 128 ≤ c.toNat

/-- Whether a text can be the target of a directive. -/
def isTarget (cs : List Char) : Bool := cs.head?.any startsTarget && !cs.contains '['

/-- A directive in writing: a verbosity, a target, or a target and its verbosity. -/
def read? (cs : List Char) : Option Directive :=
  match Text.cut? ['='] cs with
  | none =>
    match verbosity? cs with
    | some verbosity => some { verbosity }
    | none => if isTarget cs then some { target := cs, verbosity := unlimited } else none
  | some (target, level) =>
    if isTarget target then
      if level.isEmpty then some { target, verbosity := unlimited }
      else (verbosity? level).map fun verbosity => { target, verbosity }
    else none

end Directive

namespace Filter

/-- Whether a record passes. -/
def allows (filter : Filter) (record : Record) : Bool :=
  match filter.directives.filter (·.concerns record.target) with
  | [] => false
  | first :: rest => record.level.verbosity ≤ (rest.foldl Directive.prefer first).verbosity

/-- The filter that lets everything up to a level through. -/
def upTo (level : Level) : Filter := ⟨[{ verbosity := level.verbosity }]⟩

/-- A filter in writing: directives with commas in between. Without any only errors pass. -/
def read? (text : String) : Option Filter :=
  let parts := Text.wordsBy (· == ',') text.toList
  match parts.mapM fun part => Directive.read? (Text.trim part) with
  | none => none
  | some [] => some (upTo .error)
  | some directives => some ⟨directives⟩

/-- The filter that the environment asks for, else the one up to a level. -/
def ofEnvironment (env : Environment) (level : Level) : Filter :=
  ((env.get? "RUST_LOG").bind read?).getD (upTo level)

end Filter

end EventScripts.Log
