/-!
# Blank characters

`isBlank` holds of the characters with the Unicode property `White_Space`.
Trimming and cutting into words are the usual list operators over it; they
work on lists of characters, the strings of this library being read and built
at the edges.

Script text (`SPEC_FULL.md` §10.6, SourceTree) and the demonstration grammar are
trimmed in this way.
-/

namespace EventScripts.Text

/-- The code points with the Unicode property `White_Space`. -/
def isBlankCode (n : Nat) : Bool :=
  (9 ≤ n && n ≤ 13) || n == 0x20 || n == 0x85 || n == 0xA0 || n == 0x1680
    || (0x2000 ≤ n && n ≤ 0x200A) || n == 0x2028 || n == 0x2029 || n == 0x202F
    || n == 0x205F || n == 0x3000

/-- Blank: of the Unicode property `White_Space`. -/
def isBlank (c : Char) : Bool := isBlankCode c.toNat

/-- Space, tab, line feed, form feed and carriage return. -/
def isAsciiBlank (c : Char) : Bool :=
  c.toNat == 9 || c.toNat == 10 || c.toNat == 12 || c.toNat == 13 || c.toNat == 32

/-- The text from its first character that is not blank. -/
def trimStart (cs : List Char) : List Char := cs.dropWhile isBlank

/-- The text up to its last character that is not blank. -/
def trimEnd (cs : List Char) : List Char := (cs.reverse.dropWhile isBlank).reverse

/-- The text without the blanks at both ends. -/
def trim (cs : List Char) : List Char := trimStart (trimEnd cs)

/-- The blanks that a text starts with. -/
def margin (cs : List Char) : List Char := cs.takeWhile isBlank

end EventScripts.Text
