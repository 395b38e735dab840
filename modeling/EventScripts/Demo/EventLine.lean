import EventScripts.Event.Basic
import EventScripts.Text.Cut
/-!
# Events on the console

A line such as `chat player=bob message=hi` is an event: its first word is the
kind, a word with an equals sign sets a field, and the word `cancelled` cancels
the event. Other words mean nothing.

The console events of `SPEC_FULL.md` §10.6 (Runner).
-/

namespace EventScripts.Demo

/-- Applies one word after the first. -/
def applyWord (event : Event) (word : List Char) : Event :=
  match Text.cut? ['='] word with
  | some (name, value) => event.withField (String.ofList name) (String.ofList value)
  | none => if word = "cancelled".toList then { event with cancelled := true } else event

/-- The event of a line; none if the line is blank. -/
def readEvent? (line : String) : Option Event :=
  match Text.words line.toList with
  | [] => none
  | kind :: rest => some (rest.foldl applyWord { kind := String.ofList kind })

end EventScripts.Demo
