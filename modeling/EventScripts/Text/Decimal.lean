/-!
# Bounded decimal integers

The written form is an optional sign and at least one decimal digit; anything
else, and a value outside the bounds, is refused. A type without negative
values takes no minus sign, not even before zero.

The flag `--workers` (`SPEC_FULL.md` §10.4) and the priorities of probes are read in
this way.
-/

namespace EventScripts.Text

/-- The value of a run of decimal digits, if there is one and nothing else. -/
def digits? (cs : List Char) : Option Nat :=
  if !cs.isEmpty && cs.all Char.isDigit then
    some (cs.foldl (fun n c => 10 * n + (c.toNat - 48)) 0)
  else none

/-- An integer from `-2 ^ bits` up to `2 ^ bits`, the latter excluded. -/
def signed? (bits : Nat) : List Char → Option Int
  | '-' :: cs => (digits? cs).bind fun n => if n ≤ Nat.pow 2 bits then some (-(n : Int)) else none
  | '+' :: cs => (digits? cs).bind fun n => if n < Nat.pow 2 bits then some (n : Int) else none
  | cs => (digits? cs).bind fun n => if n < Nat.pow 2 bits then some (n : Int) else none

/-- A natural number below `2 ^ bits`. -/
def unsigned? (bits : Nat) : List Char → Option Nat
  | '+' :: cs => (digits? cs).filter (· < Nat.pow 2 bits)
  | cs => (digits? cs).filter (· < Nat.pow 2 bits)

end EventScripts.Text
