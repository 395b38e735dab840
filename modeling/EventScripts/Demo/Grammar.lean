import EventScripts.Demo.Header
import EventScripts.Demo.Placeholder
import EventScripts.Script.Handler
/-!
# The demonstration grammar

A script is made of event sections. Every line of a section is logged when an
event of the section's kinds is raised, with its placeholders filled; the line
`stop` ends the section.

The demonstration grammar of `SPEC_FULL.md` §10.6 (Runner). It is one instance of the
structure parser of §6; the loader takes any `Grammar`.
-/

namespace EventScripts.Demo

/-- The kinds that the demonstration host raises. -/
def declarations : List KindDecl := [
  { kind := "join", ownsList := true },
  { kind := "first_join", parent := some "join" },
  { kind := "quit", ownsList := true },
  { kind := "chat", ownsList := true },
  { kind := "command", ownsList := true, listensBlocked := true }]

/-- The catalog of these kinds. -/
def catalog : Catalog :=
  match Catalog.build declarations with
  | .ok catalog => catalog
  | .error _ => {}

/-- Why a block is no event section. -/
inductive SectionError where
  | notASection (key : String)
  | header (error : HeaderError)
  | unknownKind (kind : Kind)
  | nested (line : Nat)
deriving DecidableEq, Repr

def SectionError.message : SectionError → String
  | notASection key => s!"expected an event section, found '{key}'"
  | header error => error.message
  | unknownKind kind => s!"unknown event '{kind}'"
  | nested line => s!"line {line}: nested sections are not supported"

/-- The statement of a line in a script. -/
def statement (script : Path) (text : String) : Statement := fun event =>
  if text = "stop" then { result := .ok false }
  else
    let name := script.fileName?.getD ""
    { remarks := [.logged ⟨.info, "runner", s!"[{name}] " ++ interpolate text event⟩] }

/-- The statements of a section. -/
def statements (script : Path) : List Node → Except SectionError (List Statement)
  | [] => .ok []
  | .entry _ key :: rest => (statements script rest).map (statement script key :: ·)
  | .block line .. :: _ => .error (.nested line)

/-- The trigger of a block. -/
def trigger (catalog : Catalog) (script : Path) (id : TriggerId) : Node → Except SectionError Trigger
  | .entry _ key => .error (.notASection key)
  | .block _ key children =>
    match Header.read key with
    | .error e => .error (.header e)
    | .ok header =>
      match header.kinds.find? fun kind => !catalog.contains kind with
      | some kind => .error (.unknownKind kind)
      | none =>
        (statements script children).map fun body =>
          { id, name := key, script, kinds := header.kinds, tier := header.tier, body }

/-- The grammar. -/
def grammar : Grammar Handler where
  compile catalog script id node :=
    match trigger catalog script id node with
    | .ok trigger => { result := .ok (some { trigger }) }
    | .error e => { result := .error (.failure e.message) }

end EventScripts.Demo
