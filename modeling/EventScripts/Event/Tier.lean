import EventScripts.Text.Blank
/-!
# Priority tiers

A listener is registered at one of six tiers. The host delivers an event tier
by tier in ascending order, `lowest` first and `monitor` last. A tier is read
by its name, in any letter case and between any blanks.

The priorities of `SPEC_FULL.md` §4.5; §10.6 has their order (`Lowest` to `Monitor`).
-/

namespace EventScripts

/-- The tier that a listener is registered at. -/
inductive Tier where
  | lowest
  | low
  | normal
  | high
  | highest
  | monitor
deriving DecidableEq, Repr, Inhabited

namespace Tier

/-- Every tier, in the order of delivery. -/
def all : List Tier := [lowest, low, normal, high, highest, monitor]

/-- How many tiers are delivered before this one. -/
def rank : Tier → Nat
  | lowest => 0
  | low => 1
  | normal => 2
  | high => 3
  | highest => 4
  | monitor => 5

/-- The tier of a listener that names none. -/
def standard : Tier := normal

def name : Tier → String
  | lowest => "lowest"
  | low => "low"
  | normal => "normal"
  | high => "high"
  | highest => "highest"
  | monitor => "monitor"

/-- The text is none of the names. -/
inductive ReadError where
  | unknown (text : String)
deriving DecidableEq, Repr

def ReadError.message : ReadError → String
  | unknown text => s!"unknown event priority '{text}'"

/-- Reads the name of a tier. -/
def read (text : String) : Except ReadError Tier :=
  let word := (Text.trim text.toList).map Char.toLower
  match all.find? (fun tier => tier.name.toList == word) with
  | some tier => .ok tier
  | none => .error (.unknown text)

theorem mem_all (tier : Tier) : tier ∈ all := by cases tier <;> decide

end Tier

end EventScripts
