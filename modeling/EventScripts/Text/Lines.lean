/-!
# Physical lines

Lines end at line feeds. A carriage return before the line feed belongs to the
line's end, and a text that ends in a line feed has no further, empty line.

Script text (`SPEC_FULL.md` §10.6, SourceTree) is read line by line.
-/

namespace EventScripts.Text

/-- A line without the carriage return at its end. -/
def dropReturn (cs : List Char) : List Char :=
  match cs.reverse with
  | '\r' :: front => front.reverse
  | _ => cs

/-- The lines of a text, given the part `line` of the first one already read, last character
first. A carriage return is dropped only before a line feed. -/
def linesFrom (line : List Char) : List Char → List (List Char)
  | [] => if line.isEmpty then [] else [line.reverse]
  | c :: cs => if c = '\n' then dropReturn line.reverse :: linesFrom [] cs else linesFrom (c :: line) cs

/-- The lines of a text, without their ends. -/
def lines (cs : List Char) : List (List Char) := linesFrom [] cs

end EventScripts.Text
