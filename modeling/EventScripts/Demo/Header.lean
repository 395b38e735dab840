import EventScripts.Event.Basic
import EventScripts.Event.Tier
import EventScripts.Text.Cut
/-!
# Headers of event sections

A header names the kinds of events of a section, and possibly a tier:
`on join or first_join with priority high`. The tier is whatever follows the
first `with priority`; the kinds are what stands between the `or`s.

`SPEC_FULL.md` §10.6 (Runner): `on <kind>[ or <kind>...][ with priority <tier>]`.
-/

namespace EventScripts.Demo

structure Header where
  kinds : List Kind
  tier : Tier
deriving DecidableEq, Repr

/-- Why a text is no header. -/
inductive HeaderError where
  | notAnEvent (header : String)
  | tier (header : String) (cause : Tier.ReadError)
  | noKinds (header : String)
deriving DecidableEq, Repr

def HeaderError.message : HeaderError → String
  | notAnEvent header => s!"expected 'on <event>', found '{header}'"
  | tier header cause => s!"in trigger header '{header}': {cause.message}"
  | noKinds header => s!"trigger header '{header}' names no event"

namespace Header

/-- The kinds in a list with `or` in between. -/
def kindsOf (list : List Char) : List Kind :=
  (((Text.splitOn " or ".toList list).map Text.trim).filter (!·.isEmpty)).map String.ofList

/-- The list of kinds of a header, and the tier. -/
def cutTier (header : String) (rest : List Char) : Except HeaderError (List Char × Tier) :=
  match Text.cut? " with priority ".toList rest with
  | none => .ok (rest, .standard)
  | some (list, word) =>
    match Tier.read (String.ofList word) with
    | .ok tier => .ok (list, tier)
    | .error e => .error (.tier header e)

/-- Reads a header. -/
def read (header : String) : Except HeaderError Header :=
  match Text.stripPrefix? "on ".toList header.toList with
  | none => .error (.notAnEvent header)
  | some rest =>
    match cutTier header rest with
    | .error e => .error e
    | .ok (list, tier) =>
      if (kindsOf list).isEmpty then .error (.noKinds header) else .ok ⟨kindsOf list, tier⟩

end Header

end EventScripts.Demo
