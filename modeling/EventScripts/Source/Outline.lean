import EventScripts.Script.Problem
import EventScripts.Source.Node
import EventScripts.Text.Cut
import EventScripts.Text.Lines
/-!
# Reading the outline of a script

A line counts if it is not blank once its comment is gone; a comment starts at
a `#`, and `##` stands for the character itself. The blanks in front of a line
are its indentation: all of them, in the whole file, must be one character, or
the file is refused. A line that ends in a colon opens a section, and the first
line in it fixes the indentation of the others. A line that does not stand at
the indentation expected of it is skipped and reported.

`Outline.add` adds one line to the sections that are open, innermost first.

This is `parse_source` of `SPEC_FULL.md` §10.6 (SourceTree).
-/

namespace EventScripts.Source

/-- The text of a line in front of its comment, with `##` read as `#`. -/
def stripComment : List Char → List Char
  | [] => []
  | '#' :: '#' :: rest => '#' :: stripComment rest
  | c :: rest => if c = '#' then [] else c :: stripComment rest

/-- A line that counts: its number, its indentation and the rest, which is not empty. -/
structure Line where
  number : Nat
  margin : List Char
  body : List Char
deriving DecidableEq, Repr

/-- The line with a number, unless it is blank. -/
def line? (number : Nat) (raw : List Char) : Option Line :=
  let content := Text.trimEnd (stripComment raw)
  if content.isEmpty then none
  else some ⟨number, Text.margin content, Text.trimStart content⟩

/-- The lines of a text that count. -/
def significant (text : List Char) : List Line :=
  ((Text.lines text).zipIdx 1).filterMap fun (raw, number) => line? number raw

/-- A section that is still open. -/
structure OpenBlock where
  indent : Nat
  childIndent : Option Nat := none
  line : Nat
  key : String
  children : List Node := []

/-- The section as it is once closed. -/
def OpenBlock.node (block : OpenBlock) : Node := .block block.line block.key block.children

/-- Closes the sections that a line at `indent` does not belong to. `done` are the nodes that
belong into the next section further out. Returns the sections left open and, if none is, the
nodes that are at the top. -/
def close (indent : Nat) : List OpenBlock → List Node → List OpenBlock × List Node
  | [], done => ([], done)
  | block :: outer, done =>
    let block := { block with children := block.children ++ done }
    if indent ≤ block.indent then close indent outer [block.node] else (block :: outer, [])

/-- Closes all sections. -/
def closeAll : List OpenBlock → List Node → List Node
  | [], done => done
  | block :: outer, done =>
    closeAll outer [{ block with children := block.children ++ done }.node]

/-- A line that was skipped. -/
structure Skip where
  line : Nat
  expected : Nat
  found : Nat
deriving DecidableEq, Repr

/-- The outline read so far. -/
structure Outline where
  /-- The character that indents, once a line is indented. -/
  indentChar : Option Char := none
  stack : List OpenBlock := []
  roots : List Node := []
  skips : List Skip := []

namespace Outline

/-- The indentation character after a line, unless its margin brings in a second one. -/
def indentWith (indentChar : Option Char) (margin : List Char) : Option (Option Char) :=
  match indentChar.or margin.head? with
  | none => some none
  | some c => if margin.all (· == c) then some (some c) else none

/-- Adds a line at the indentation that was expected of it. -/
def place (stack : List OpenBlock) (roots : List Node) (line : Line) :
    List OpenBlock × List Node :=
  match Text.stripLast? ':' line.body with
  | some key =>
    let block : OpenBlock :=
      { indent := line.margin.length, line := line.number
        key := String.ofList (Text.trimEnd key) }
    (block :: stack, roots)
  | none =>
    let entry := Node.entry line.number (String.ofList line.body)
    match stack with
    | [] => ([], roots ++ [entry])
    | block :: outer => ({ block with children := block.children ++ [entry] } :: outer, roots)

/-- Adds a line; `none` if it mixes the indentation. -/
def add (outline : Outline) (line : Line) : Option Outline :=
  (indentWith outline.indentChar line.margin).map fun indentChar =>
    let indent := line.margin.length
    let (stack, top) := close indent outline.stack []
    let roots := outline.roots ++ top
    let (expected, stack) : Nat × List OpenBlock :=
      match stack with
      | [] => (0, [])
      | block :: outer =>
        let expected := block.childIndent.getD indent
        (expected, { block with childIndent := some expected } :: outer)
    if indent = expected then
      let (stack, roots) := place stack roots line
      { outline with indentChar, stack, roots }
    else
      { indentChar, stack, roots, skips := outline.skips ++ [⟨line.number, expected, indent⟩] }

/-- Adds lines up to the first that mixes the indentation; that line's number comes with the
outline in front of it. -/
def addAll (outline : Outline) : List Line → Outline × Option Nat
  | [] => (outline, none)
  | line :: rest =>
    match outline.add line with
    | none => (outline, some line.number)
    | some outline => outline.addAll rest

/-- The forest of an outline. -/
def forest (outline : Outline) : List Node := outline.roots ++ closeAll outline.stack []

end Outline

/-- What a text reads as: the skipped lines, and the forest or the number of the line that mixes
the indentation. -/
structure Reading where
  skips : List Skip
  forest : Except Nat (List Node)

/-- Reads a text. -/
def read (text : String) : Reading :=
  match Outline.addAll {} (significant text.toList) with
  | (outline, none) => ⟨outline.skips, .ok outline.forest⟩
  | (outline, some line) => ⟨outline.skips, .error line⟩

/-- The report of a skipped line. -/
def Skip.problem (path : Path) (skip : Skip) : Problem :=
  .malformed path (some skip.line) (.unexpectedIndentation skip.expected skip.found)

/-- Reads the text of the script at `path`: the problems to report, and the forest or the problem
with the whole file. -/
def parse (path : Path) (text : String) : List Problem × Except Problem (List Node) :=
  let reading := read text
  (reading.skips.map (Skip.problem path),
    reading.forest.mapError fun line => .malformed path (some line) .mixedIndentation)

end EventScripts.Source
