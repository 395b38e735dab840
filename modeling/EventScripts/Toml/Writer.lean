import EventScripts.Toml.Value
/-!
# Writing TOML

A string is written in the first of five ways that can hold it: between double
quotes, between single quotes, over several lines between three double or three
single quotes, and with escapes.
-/

namespace EventScripts.Toml

/-- The four sorts of quotes. -/
inductive Quotes where
  | basic
  | literal
  | basicLines
  | literalLines
deriving DecidableEq, Repr

/-- The length of the longest run of `c` in a text, given the length of the run that the text
continues. -/
def longestRun (c : Char) (run : Nat) : List Char → Nat
  | [] => run
  | d :: rest =>
    if d = c then longestRun c (run + 1) rest else max run (longestRun c 0 rest)

/-- Whether a character can only be written as an escape. -/
def needsEscape (c : Char) : Bool := (c.toNat < 0x20 && c != '\t' && c != '\n') || c.toNat == 0x7F

/-- How a string is written. -/
def quotesFor (cs : List Char) : Quotes :=
  let escapes := cs.any needsEscape
  let backslash := cs.contains '\\'
  let newline := cs.contains '\n'
  let doubles := longestRun '"' 0 cs
  let singles := longestRun '\'' 0 cs
  if !escapes && !backslash && doubles == 0 && !newline then .basic
  else if !escapes && singles == 0 && !newline then .literal
  else if !escapes && !backslash && doubles ≤ 2 then .basicLines
  else if !escapes && singles ≤ 2 then .literalLines
  else if newline then .basicLines
  else .basic

/-- A number in four hexadecimal digits. -/
def fourHex (n : Nat) : List Char :=
  let digit (d : Nat) : Char := if d < 10 then Char.ofNat (48 + d) else Char.ofNat (55 + d)
  [digit (n / 4096 % 16), digit (n / 256 % 16), digit (n / 16 % 16), digit (n % 16)]

/-- One character of a basic string other than a double quote. -/
def escaped (lines : Bool) (c : Char) : List Char :=
  if c = '\\' then ['\\', '\\']
  else if c = '\x08' then ['\\', 'b']
  else if c = '\t' then ['\\', 't']
  else if c = '\n' then (if lines then ['\n'] else ['\\', 'n'])
  else if c = '\x0c' then ['\\', 'f']
  else if c = '\r' then ['\\', 'r']
  else if needsEscape c then ['\\', 'u'] ++ fourHex c.toNat
  else [c]

/-- The characters of a basic string. Over several lines, up to two double quotes in a row stand as
they are; `run` counts those just written. -/
def escapeAll (lines : Bool) (run : Nat) : List Char → List Char
  | [] => []
  | c :: rest =>
    if c = '"' then
      if run < (if lines then 2 else 0) then '"' :: escapeAll lines (run + 1) rest
      else '\\' :: '"' :: escapeAll lines 0 rest
    else escaped lines c ++ escapeAll lines 0 rest

/-- A string as it is written. -/
def writeString (text : String) : String :=
  let cs := text.toList
  let single := ['\'']
  let triple := ['\'', '\'', '\'']
  let doubles := ['"', '"', '"']
  String.ofList <|
    match quotesFor cs with
    | .basic => '"' :: escapeAll false 0 cs ++ ['"']
    | .literal => single ++ cs ++ single
    | .basicLines => doubles ++ '\n' :: escapeAll true 0 cs ++ doubles
    | .literalLines => triple ++ '\n' :: cs ++ triple

/-- A value that is not a table, as it is written. Only strings, integers and booleans are. -/
def writeScalar? : Value → Option String
  | .string text => some (writeString text)
  | .integer n => if isInteger n then some (toString n) else none
  | .boolean true => some "true"
  | .boolean false => some "false"
  | _ => none

/-- The lines of a table without tables in it. -/
def writeEntries? : List (String × Value) → Option String
  | [] => some ""
  | (key, value) :: rest => do
    let value ← writeScalar? value
    let rest ← writeEntries? rest
    return s!"{key} = {value}\n{rest}"

/-- One table of a document with its header. Keys are written as they are. -/
def writeTable? : String × Value → Option String
  | (key, .table entries) => (writeEntries? entries).map fun lines => s!"[{key}]\n{lines}"
  | _ => none

/-- A document whose entries are all tables; a blank line stands between two of them. -/
def write? (table : List (String × Value)) : Option String :=
  (table.mapM writeTable?).map fun tables => "\n".intercalate tables

end EventScripts.Toml
