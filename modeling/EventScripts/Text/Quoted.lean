import EventScripts.Text.Blank
/-!
# Quoted text

A text between double quotes, in which what would not be seen as itself is
escaped: quotes, backslashes, control characters, blanks other than the plain
space, characters without a width of their own, and characters for private use.

Failures that end the program are shown so (`EventScripts.CommandLine.Failure`).
-/

namespace EventScripts.Text

/-- The ranges of code points, other than blanks, that are not shown as they are: control and
format characters, common combining marks, and private use. -/
def hiddenRanges : List (Nat × Nat) := [
  (0x00, 0x1F), (0x7F, 0x9F), (0xAD, 0xAD), (0x300, 0x36F), (0x483, 0x489), (0x591, 0x5BD),
  (0x600, 0x605), (0x610, 0x61A), (0x61C, 0x61C), (0x64B, 0x65F), (0x6DD, 0x6DD), (0x70F, 0x70F),
  (0x180E, 0x180E), (0x1AB0, 0x1ACE), (0x1DC0, 0x1DFF), (0x200B, 0x200F), (0x202A, 0x202E),
  (0x2060, 0x206F), (0x20D0, 0x20F0), (0x302A, 0x302F), (0x3099, 0x309A), (0xE000, 0xF8FF),
  (0xFE00, 0xFE0F), (0xFE20, 0xFE2F), (0xFEFF, 0xFEFF), (0xFFF0, 0xFFFB), (0xFFFE, 0xFFFF),
  (0x1F3FB, 0x1F3FF), (0xE0000, 0x10FFFF)]

/-- Whether a character is shown as it is. -/
def isShown (c : Char) : Bool :=
  c == ' ' || !(isBlank c || hiddenRanges.any fun (low, high) => low ≤ c.toNat && c.toNat ≤ high)

/-- A code point in hexadecimal digits. -/
def hexOf (n : Nat) : List Char := Nat.toDigits 16 n

/-- A character inside quotes. -/
def quotedChar (c : Char) : List Char :=
  if c = '"' then ['\\', '"']
  else if c = '\\' then ['\\', '\\']
  else if c = '\n' then ['\\', 'n']
  else if c = '\r' then ['\\', 'r']
  else if c = '\t' then ['\\', 't']
  else if c = '\x00' then ['\\', '0']
  else if isShown c then [c]
  else ['\\', 'u', '\x7b'] ++ hexOf c.toNat ++ ['\x7d']

/-- A text in quotes. -/
def quoted (text : String) : String :=
  String.ofList ('"' :: text.toList.flatMap quotedChar ++ ['"'])

end EventScripts.Text
