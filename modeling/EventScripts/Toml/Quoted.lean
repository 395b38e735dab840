import EventScripts.Toml.Scalar
/-!
# Strings in TOML

Basic strings stand between double quotes and have escapes, literal strings
between single quotes and have none. Between three quotes a string may go over
several lines; a line feed right after the opening quotes does not count, and a
backslash at the end of a line swallows the blanks that follow.
-/

namespace EventScripts.Toml

/-- The characters that may stand in a document as they are, line ends apart. -/
def isPlain (c : Char) : Bool := c == '\t' || (0x20 ≤ c.toNat && c.toNat != 0x7F)

/-- The character of a short escape. -/
def escape? : Char → Option Char
  | 'b' => some '\x08'
  | 't' => some '\t'
  | 'n' => some '\n'
  | 'f' => some '\x0c'
  | 'r' => some '\r'
  | '"' => some '"'
  | '\\' => some '\\'
  | _ => none

/-- The character with a number in hexadecimal digits. -/
def scalarValue? (ds : List Char) : Option Char :=
  if ds.all isHexDigit then
    let n := valueIn 16 ds
    if n.isValidChar then some (Char.ofNat n) else none
  else none

/-- Reads a string up to the quote that closes it, which the caller knows. -/
abbrev Reading := Option (List Char × List Char)

def consed (c : Option Char) (rest : Reading) : Reading :=
  match c, rest with
  | some c, some (s, rest) => some (c :: s, rest)
  | _, _ => none

/-- The rest of a basic string. -/
def basic : List Char → Reading
  | [] => none
  | '"' :: rest => some ([], rest)
  | '\\' :: 'u' :: a :: b :: c :: d :: rest => consed (scalarValue? [a, b, c, d]) (basic rest)
  | '\\' :: 'U' :: a :: b :: c :: d :: e :: f :: g :: h :: rest =>
    consed (scalarValue? [a, b, c, d, e, f, g, h]) (basic rest)
  | '\\' :: e :: rest => consed (escape? e) (basic rest)
  | c :: rest => if isPlain c then consed (some c) (basic rest) else none

/-- The rest of a literal string. -/
def literal : List Char → Reading
  | [] => none
  | '\'' :: rest => some ([], rest)
  | c :: rest => if isPlain c then consed (some c) (literal rest) else none

/-- Whether only blanks come before the end of the line. -/
def endsLine (cs : List Char) : Bool :=
  match cs.dropWhile (fun c => c == ' ' || c == '\t') with
  | '\n' :: _ | '\r' :: '\n' :: _ => true
  | _ => false

/-- The rest of a basic string over several lines. `skipping` while blanks are swallowed. -/
def basicLines (skipping : Bool) : List Char → Reading
  | [] => none
  | '"' :: '"' :: '"' :: '"' :: '"' :: rest => some (['"', '"'], rest)
  | '"' :: '"' :: '"' :: '"' :: rest => some (['"'], rest)
  | '"' :: '"' :: '"' :: rest => some ([], rest)
  | '\r' :: '\n' :: rest =>
    if skipping then basicLines true rest else consed (some '\n') (basicLines false rest)
  | '\\' :: 'u' :: a :: b :: c :: d :: rest =>
    consed (scalarValue? [a, b, c, d]) (basicLines false rest)
  | '\\' :: 'U' :: a :: b :: c :: d :: e :: f :: g :: h :: rest =>
    consed (scalarValue? [a, b, c, d, e, f, g, h]) (basicLines false rest)
  | '\\' :: e :: rest =>
    if endsLine (e :: rest) then basicLines true (e :: rest)
    else consed (escape? e) (basicLines false rest)
  | c :: rest =>
    if skipping && (c == ' ' || c == '\t' || c == '\n') then basicLines true rest
    else if isPlain c || c == '\n' then consed (some c) (basicLines false rest)
    else none

/-- The rest of a literal string over several lines. -/
def literalLines : List Char → Reading
  | [] => none
  | '\'' :: '\'' :: '\'' :: '\'' :: '\'' :: rest => some (['\'', '\''], rest)
  | '\'' :: '\'' :: '\'' :: '\'' :: rest => some (['\''], rest)
  | '\'' :: '\'' :: '\'' :: rest => some ([], rest)
  | '\r' :: '\n' :: rest => consed (some '\n') (literalLines rest)
  | c :: rest =>
    if isPlain c || c == '\n' then consed (some c) (literalLines rest) else none

/-- A text without the line end that it starts with. -/
def dropLineEnd : List Char → List Char
  | '\n' :: rest => rest
  | '\r' :: '\n' :: rest => rest
  | cs => cs

/-- The string at the start of a text, and what follows it. -/
def readString : List Char → Reading
  | '"' :: '"' :: '"' :: rest => basicLines false (dropLineEnd rest)
  | '"' :: rest => basic rest
  | '\'' :: '\'' :: '\'' :: rest => literalLines (dropLineEnd rest)
  | '\'' :: rest => literal rest
  | _ => none

end EventScripts.Toml
