/-!
# Log records

A record has a level, the name of the part of the program that it comes from
(its target) and a message.

`SPEC_FULL.md` §10.2, without time stamps and colours.
-/

namespace EventScripts.Log

inductive Level where
  | error
  | warn
  | info
  | debug
deriving DecidableEq, Repr

namespace Level

def name : Level → String
  | error => "ERROR"
  | warn => "WARN"
  | info => "INFO"
  | debug => "DEBUG"

/-- How verbose a level is; a filter that lets a level through lets those below it through. -/
def verbosity : Level → Nat
  | error => 1
  | warn => 2
  | info => 3
  | debug => 4

end Level

structure Record where
  level : Level
  target : String
  message : String
deriving DecidableEq, Repr

/-- One line for a record. -/
def Record.line (record : Record) : String :=
  s!"{record.level.name} {record.target}: {record.message}"

end EventScripts.Log
