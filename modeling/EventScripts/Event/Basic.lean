/-!
# Events

An event has a kind, may have been cancelled, and may carry the outcome of an
interactive action. Most events also carry text fields; an event of the host's
own type carries none that a script can read.

The event instances that the host supplies in `SPEC_FULL.md` §6, as §10.1 has them.
-/

namespace EventScripts

/-- The name of an event kind, such as `player_join`. -/
abbrev Kind := String

/-- What the host has decided about an interactive action. -/
inductive Verdict where
  | allow
  | undecided
  | deny
deriving DecidableEq, Repr, Inhabited

/-- An event raised by the host. `fields` is `none` for an event whose fields cannot be read;
otherwise the latest value of a field comes first. -/
structure Event where
  kind : Kind
  cancelled : Bool := false
  verdict : Verdict := .undecided
  fields : Option (List (String × String)) := some []
deriving DecidableEq, Repr

namespace Event

/-- The value of a field. -/
def field? (event : Event) (name : String) : Option String :=
  event.fields.bind (·.lookup name)

/-- Sets a field; an earlier value of it is hidden. -/
def withField (event : Event) (name value : String) : Event :=
  { event with fields := event.fields.map ((name, value) :: ·) }

/-- Blocked: cancelled, or its action denied. -/
def blocked (event : Event) : Bool := event.cancelled || event.verdict == .deny

end Event

end EventScripts
