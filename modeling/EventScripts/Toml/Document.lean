import EventScripts.Toml.Quoted
/-!
# TOML documents

A document is a list of lines: headers that open a table, and keys with values
that go into the table opened last. `read` gives the table of a whole document,
or nothing if the text is not one.

The functions that read nested values take a number of calls as their fuel; the
length of the text is always enough, since every second call at least takes a
character away.

TOML is the format of `skhost.toml`, `SPEC_FULL.md` §10.4.
-/

namespace EventScripts.Toml

/-- How deep arrays and inline tables may lie in each other, and how many parts a key may have. -/
def maxDepth : Nat := 80

def isSpace (c : Char) : Bool := c == ' ' || c == '\t'

def skipSpaces (cs : List Char) : List Char := cs.dropWhile isSpace

def isBareKeyChar (c : Char) : Bool := c.isAlphanum || c == '_' || c == '-'

/-- A text without its comment, if it starts with one. -/
def skipComment : List Char → List Char
  | '#' :: rest => rest.dropWhile isPlain
  | cs => cs

/-- The text after the end of the line, if nothing but a comment comes before that. -/
def endLine? (cs : List Char) : Option (List Char) :=
  match skipComment (skipSpaces cs) with
  | [] => some []
  | '\n' :: rest => some rest
  | '\r' :: '\n' :: rest => some rest
  | _ => none

/-- Skips blanks, line ends and comments. -/
def skipLines (inComment : Bool) : List Char → List Char
  | [] => []
  | '\n' :: rest => skipLines false rest
  | '\r' :: '\n' :: rest => skipLines false rest
  | c :: rest =>
    if inComment then if isPlain c then skipLines true rest else c :: rest
    else if isSpace c then skipLines false rest
    else if c == '#' then skipLines true rest
    else c :: rest

/-- One part of a key, and what follows it. -/
def readKeyPart (cs : List Char) : Reading :=
  match cs with
  | '"' :: rest => basic rest
  | '\'' :: rest => literal rest
  | _ =>
    let part := cs.takeWhile isBareKeyChar
    if part.isEmpty then none else some (part, cs.dropWhile isBareKeyChar)

/-- The parts of a key with dots in between, and what follows the key and the blanks after it. -/
def readKeyParts : Nat → List Char → Option (List String × List Char)
  | 0, _ => none
  | fuel + 1, cs =>
    match readKeyPart (skipSpaces cs) with
    | none => none
    | some (part, rest) =>
      match skipSpaces rest with
      | '.' :: rest =>
        (readKeyParts fuel rest).map fun (parts, rest) => (String.ofList part :: parts, rest)
      | rest => some ([String.ofList part], rest)

/-- A key: the parts before the last one, the last one, and what follows. -/
def readKey (cs : List Char) : Option (List String × String × List Char) :=
  match readKeyParts maxDepth cs with
  | some (parts, rest) =>
    match parts.getLast? with
    | some last => if parts.length < maxDepth then some (parts.dropLast, last, rest) else none
    | none => none
  | none => none

mutual

/-- The value at the start of a text, and what follows it. -/
def readValue (depth : Nat) : Nat → List Char → Option (Value × List Char)
  | 0, _ => none
  | fuel + 1, cs =>
    match cs with
    | '"' :: _ | '\'' :: _ => (readString cs).map fun (s, rest) => (.string (String.ofList s), rest)
    | '[' :: rest =>
      if depth + 1 < maxDepth then
        (readItems (depth + 1) fuel rest).map fun (items, rest) => (.array items, rest)
      else none
    | '{' :: rest =>
      if depth + 1 < maxDepth then
        match skipSpaces rest with
        | '}' :: rest => some (.table [], rest)
        | rest =>
          (readPairs (depth + 1) fuel [] rest).map fun (entries, rest) =>
            (.table (valuesOf entries), rest)
      else none
    | _ => readScalar cs

/-- The items of an array up to its end, and what follows it. -/
def readItems (depth : Nat) : Nat → List Char → Option (List Value × List Char)
  | 0, _ => none
  | fuel + 1, cs =>
    match skipLines false cs with
    | ']' :: rest => some ([], rest)
    | cs =>
      match readValue depth fuel cs with
      | none => none
      | some (item, rest) =>
        match skipLines false rest with
        | ']' :: rest => some ([item], rest)
        | ',' :: rest => (readItems depth fuel rest).map fun (items, rest) => (item :: items, rest)
        | _ => none

/-- The entries of an inline table up to its end, and what follows it. -/
def readPairs (depth : Nat) : Nat → Entries → List Char → Option (Entries × List Char)
  | 0, _, _ => none
  | fuel + 1, entries, cs =>
    match readPair depth fuel entries cs with
    | none => none
    | some (entries, rest) =>
      match skipSpaces rest with
      | '}' :: rest => some (entries, rest)
      | ',' :: rest => readPairs depth fuel entries rest
      | _ => none

/-- Enters a key and its value into a table; the second result is what follows the value. -/
def readPair (depth : Nat) : Nat → Entries → List Char → Option (Entries × List Char)
  | 0, _, _ => none
  | fuel + 1, entries, cs =>
    match readKey cs with
    | some (path, key, '=' :: rest) =>
      match readValue depth fuel (skipSpaces rest) with
      | some (value, rest) => (entries.setValue path key value).map (·, rest)
      | none => none
    | _ => none

end

/-- The document read so far: its root, and the path of the table opened last. -/
structure Draft where
  root : Entries := []
  header : List String := []

/-- Opens the table of a header whose brackets have been read. -/
def openHeader (draft : Draft) (path : List String) (last : String) (isArray : Bool) :
    Option Draft :=
  let opened :=
    if isArray then Entries.openElement path last draft.root
    else Entries.openTable path last draft.root
  opened.map fun root => { root, header := path ++ [last] }

/-- Reads a header behind its first bracket. -/
def readHeader (draft : Draft) : List Char → Option (Draft × List Char)
  | '[' :: cs =>
    match readKey cs with
    | some (path, last, ']' :: ']' :: rest) => (openHeader draft path last true).map (·, rest)
    | _ => none
  | cs =>
    match readKey cs with
    | some (path, last, ']' :: rest) => (openHeader draft path last false).map (·, rest)
    | _ => none

/-- Reads a key and its value into the table opened last. -/
def readEntry (draft : Draft) (cs : List Char) : Option (Draft × List Char) :=
  -- The pair is read by itself first; where it goes is decided by the header.
  match readKey cs with
  | some (path, key, '=' :: rest) =>
    match readValue 0 (2 * rest.length + 2) (skipSpaces rest) with
    | some (value, rest) =>
      (Entries.atHeader (Entries.setValue path key value) draft.header draft.root).map fun root =>
        ({ draft with root }, rest)
    | none => none
  | _ => none

/-- Reads the lines of a document. -/
def readLines : Nat → Draft → List Char → Option Entries
  | 0, _, _ => none
  | fuel + 1, draft, cs =>
    match skipLines false cs with
    | [] => some draft.root
    | cs =>
      let line :=
        match cs with
        | '[' :: rest => readHeader draft rest
        | _ => readEntry draft cs
      match line with
      | none => none
      | some (draft, rest) =>
        match endLine? rest with
        | none => none
        | some rest => readLines fuel draft rest

/-- The table of a document. A byte order mark in front does not count. -/
def read (text : String) : Option (List (String × Value)) :=
  let cs :=
    match text.toList with
    | '\ufeff' :: cs => cs
    | cs => cs
  (readLines (cs.length + 1) {} cs).map valuesOf

end EventScripts.Toml
