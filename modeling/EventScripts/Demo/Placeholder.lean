import EventScripts.Event.Basic
import EventScripts.Text.Cut
/-!
# Placeholders

In a line of text, a field name between braces stands for the event's field of
that name. A name without a field stays as it is written, and so does a brace
that is not closed. Inserted values are not read again.

`SPEC_FULL.md` §10.6 (Runner): the `{field}` placeholders of the demonstration
grammar.
-/

namespace EventScripts.Demo

/-- Fills the placeholders of a text from `value?`. -/
def fill (value? : List Char → Option (List Char)) : List Char → List Char
  | [] => []
  | c :: cs =>
    if c = '\x7b' then
      match _ : Text.cut? ['\x7d'] cs with
      | none => c :: cs
      | some (name, rest) => (value? name).getD (c :: name ++ ['\x7d']) ++ fill value? rest
    else c :: fill value? cs
termination_by cs => cs.length
decreasing_by
  · have hcut := Text.eq_of_cut? ‹Text.cut? ['\x7d'] cs = some (name, rest)›
    subst hcut
    simp only [List.length_append, List.length_cons]
    omega
  · simp

/-- Fills the placeholders of a text from the fields of an event. -/
def interpolate (text : String) (event : Event) : String :=
  String.ofList (fill (fun name => (event.field? (String.ofList name)).map (·.toList)) text.toList)

end EventScripts.Demo
