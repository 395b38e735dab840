import EventScripts.Text.Cut
import EventScripts.Text.Decimal
import EventScripts.Toml.Value
/-!
# Numbers, dates and truth values in TOML

A scalar is a run of letters, digits and the marks `_`, `+`, `-`, `.` and `:`.
An underscore stands only between digits, and a decimal number starts with a
zero only if it is nothing else. A date and a time may also be joined by a
space.
-/

namespace EventScripts.Toml

def isMark (c : Char) : Bool := ['_', '+', '-', '.', ':'].contains c

def isScalarChar (c : Char) : Bool := c.isAlphanum || isMark c

/-- The digits of a run in which underscores stand between digits. -/
def underscored? (isDigit : Char → Bool) (cs : List Char) : Option (List Char) :=
  let groups := Text.pieces (· == '_') cs
  if groups.all fun g => !g.isEmpty && g.all isDigit then some groups.flatten else none

/-- Whether the text is an optional sign and something else, and that something. -/
def unsignedPart : List Char → Bool × List Char
  | '-' :: cs => (true, cs)
  | '+' :: cs => (false, cs)
  | cs => (false, cs)

/-- The digits of a decimal integer without a sign. -/
def decimal? (cs : List Char) : Option (List Char) :=
  (underscored? Char.isDigit cs).filter fun ds => ds.length == 1 || ds.head? != some '0'

def digitValue (c : Char) : Nat :=
  if c.isDigit then c.toNat - 48 else c.toLower.toNat - 87

def valueIn (base : Nat) (ds : List Char) : Nat := ds.foldl (fun n c => base * n + digitValue c) 0

def isHexDigit (c : Char) : Bool := c.isDigit || ('a' ≤ c.toLower && c.toLower ≤ 'f')

def isOctDigit (c : Char) : Bool := '0' ≤ c && c ≤ '7'

def isBinDigit (c : Char) : Bool := c == '0' || c == '1'

/-- The integer that a text is. -/
def integer? (cs : List Char) : Option Int :=
  let value : Option Int :=
    match cs with
    | '0' :: 'x' :: ds => (underscored? isHexDigit ds).map fun ds => (valueIn 16 ds : Int)
    | '0' :: 'o' :: ds => (underscored? isOctDigit ds).map fun ds => (valueIn 8 ds : Int)
    | '0' :: 'b' :: ds => (underscored? isBinDigit ds).map fun ds => (valueIn 2 ds : Int)
    | _ =>
      let (negative, ds) := unsignedPart cs
      (decimal? ds).map fun ds => if negative then -(valueIn 10 ds : Int) else valueIn 10 ds
  value.filter isInteger

/-- Whether `digits * 10 ^ exponent` is beyond the largest double, rounding included. -/
def exceedsDouble (digits : List Char) (exponent : Int) : Bool :=
  let significant := digits.dropWhile (· == '0')
  let n := valueIn 10 significant
  let bound := Nat.pow 2 1024 - Nat.pow 2 970
  let magnitude := significant.length + exponent
  if n = 0 || magnitude < 300 then false
  else if magnitude > 310 then true
  else if 0 ≤ exponent then bound ≤ n * Nat.pow 10 exponent.toNat
  else bound * Nat.pow 10 (-exponent).toNat ≤ n

/-- The value of an exponent. -/
def exponent? (cs : List Char) : Option Int :=
  let (negative, ds) := unsignedPart cs
  (underscored? Char.isDigit ds).map fun ds =>
    if negative then -(valueIn 10 ds : Int) else valueIn 10 ds

/-- Whether a text is a float: with a fraction, an exponent or both, or not a finite number. A
positive one must not be too large for a double. -/
def isFloat (cs : List Char) : Bool :=
  let (negative, body) := unsignedPart cs
  if body = "inf".toList || body = "nan".toList then true
  else
    let mantissa := body.takeWhile fun c => c != 'e' && c != 'E'
    let exponent : Option Int :=
      match body.drop mantissa.length with
      | [] => some 0
      | _ :: ds => exponent? ds
    let parts : Option (List Char × List Char) :=
      match Text.cut? ['.'] mantissa with
      | some (whole, fraction) =>
        (decimal? whole).bind fun w => (underscored? Char.isDigit fraction).map fun f => (w, f)
      | none => if mantissa.length = body.length then none else (decimal? mantissa).map (·, [])
    match parts, exponent with
    | some (whole, fraction), some e => negative || !exceedsDouble (whole ++ fraction) (e - fraction.length)
    | _, _ => false

/-- A number of exactly two digits within bounds. -/
def twoDigits? (low high : Nat) (a b : Char) : Option Nat :=
  (Text.digits? [a, b]).filter fun n => low ≤ n && n ≤ high

def isLeapYear (year : Nat) : Bool := year % 4 == 0 && (year % 100 != 0 || year % 400 == 0)

def daysIn (year month : Nat) : Nat :=
  if month = 2 then (if isLeapYear year then 29 else 28)
  else if month = 4 || month = 6 || month = 9 || month = 11 then 30 else 31

/-- What follows a time of day. -/
def time? : List Char → Option (List Char)
  | h :: h' :: ':' :: m :: m' :: ':' :: s :: s' :: rest =>
    if (twoDigits? 0 23 h h').isSome && (twoDigits? 0 59 m m').isSome
        && (twoDigits? 0 60 s s').isSome then
      match rest with
      | '.' :: fraction =>
        if (fraction.takeWhile Char.isDigit).isEmpty then none
        else some (fraction.dropWhile Char.isDigit)
      | _ => some rest
    else none
  | _ => none

/-- Whether a text is nothing or an offset from universal time. -/
def isOffset : List Char → Bool
  | [] => true
  | ['Z'] | ['z'] => true
  | [sign, h, h', ':', m, m'] =>
    (sign == '+' || sign == '-') && (twoDigits? 0 23 h h').isSome && (twoDigits? 0 59 m m').isSome
  | _ => false

/-- What follows a date. -/
def date? : List Char → Option (List Char)
  | y :: y' :: y'' :: y''' :: '-' :: m :: m' :: '-' :: d :: d' :: rest =>
    match Text.digits? [y, y', y'', y'''], twoDigits? 1 12 m m', twoDigits? 1 31 d d' with
    | some year, some month, some day => if day ≤ daysIn year month then some rest else none
    | _, _, _ => none
  | _ => none

/-- Whether a text is a date, a time or both. -/
def isDate (cs : List Char) : Bool :=
  match date? cs with
  | some [] => true
  | some (sep :: rest) =>
    (sep == 'T' || sep == 't' || sep == ' ') && (time? rest).any isOffset
  | none => (time? cs).any (·.isEmpty)

/-- The scalar that a text is. -/
def scalar? (cs : List Char) : Option Value :=
  if cs = "true".toList then some (.boolean true)
  else if cs = "false".toList then some (.boolean false)
  else if isDate cs then some .date
  else if isFloat cs then some .float
  else (integer? cs).map .integer

/-- Whether a time of day seems to start here. -/
def startsTime : List Char → Bool
  | h :: h' :: ':' :: _ => h.isDigit && h'.isDigit
  | _ => false

/-- The scalar at the start of a text, and what follows it. -/
def readScalar (cs : List Char) : Option (Value × List Char) :=
  let token := cs.takeWhile isScalarChar
  let rest := cs.dropWhile isScalarChar
  match date? token, rest with
  | some [], ' ' :: more =>
    if startsTime more then
      (scalar? (token ++ ' ' :: more.takeWhile isScalarChar)).map (·, more.dropWhile isScalarChar)
    else (scalar? token).map (·, rest)
  | _, _ => (scalar? token).map (·, rest)

end EventScripts.Toml
