import EventScripts.Demo.Header
import EventScripts.Probe.Basic
/-!
# The probing grammar

The grammar of scripts that consist of probes. An entry is a probe, or something
that does not compile in one of the ways in which a grammar may fail. A section
is a trigger with the header of an event section; its entries are statements,
conditions and a priority.

The structure parser (`SPEC_FULL.md` §6) of tests (§10.5).
-/

namespace EventScripts.Probe

/-- What follows a word and a space. -/
def after? (word : String) (text : List Char) : Option (List Char) :=
  Text.stripPrefix? (word.toList ++ [' ']) text

def badPriority (word : List Char) : Fault := .failure s!"bad priority '{String.ofList word}'"

/-- A priority: a signed integer of 32 bits. -/
def priority? (word : List Char) : Except Fault Int :=
  match Text.signed? 31 word with
  | some n => .ok n
  | none => .error (badPriority word)

/-- Reads the words behind a tracker's name. -/
def readFlags (tracker : Tracker) : List (List Char) → Except Fault Tracker
  | [] => .ok tracker
  | word :: rest =>
    if word = "priority".toList then
      match rest with
      | [] => .error (badPriority [])
      | number :: rest =>
        match priority? number with
        | .error e => .error e
        | .ok priority => readFlags { tracker with priority } rest
    else readFlags { tracker with flags := tracker.flags ++ [String.ofList word] } rest

/-- Reads the words behind `track` or `squat`. -/
def readTracker (squats : Bool) : List (List Char) → Except Fault Tracker
  | [] => .error (.failure "track needs a name")
  | name :: rest => readFlags { name := String.ofList name, squats } rest

/-- Runs a statement: it is said, then its first word decides. -/
def statement (text : String) : Statement := fun _ =>
  let cs := text.toList
  let result : Except Fault Bool :=
    if text = "stop" then .ok false
    else
      match after? "fail" cs, after? "panic" cs with
      | some message, _ => .error ((Fault.failure (String.ofList message)).within "statement")
      | _, some message => .error (.panic (some (String.ofList message)))
      | none, none => .ok true
  { remarks := [.said s!"run {text}"], result }

/-- The condition `K=V`: the event has a field of that value. -/
def condition? (text : List Char) : Option (Event → Bool) :=
  (Text.cut? ['='] text).map fun (name, value) event =>
    event.field? (String.ofList name) == some (String.ofList value)

/-- Adds a line of a section to a trigger, as a condition or as a statement. -/
def addLine (trigger : Trigger) (line : String) : Trigger :=
  match (after? "when" line.toList).bind condition? with
  | some accepts => { trigger with accepts }
  | none => { trigger with body := trigger.body ++ [statement line] }

/-- Adds the entries of a section to a handler. -/
def addEntries (handler : Handler) : List Node → Except Fault Handler
  | [] => .ok handler
  | .block .. :: rest => addEntries handler rest
  | .entry _ line :: rest =>
    match after? "at" line.toList with
    | some word =>
      match priority? word with
      | .error e => .error e
      | .ok priority => addEntries { handler with priority } rest
    | none => addEntries { handler with trigger := addLine handler.trigger line } rest

/-- The kinds and the tier of a section. -/
def readHeader (key : String) : Except Fault Demo.Header :=
  if key = "silent" then .ok ⟨[], .standard⟩
  else (Demo.Header.read key).mapError fun e => .failure e.message

/-- Compiles a section. -/
def compileSection (script : Path) (id : TriggerId) (key : String) (children : List Node) :
    Except Fault Handler :=
  match readHeader key with
  | .error e => .error e
  | .ok header =>
    addEntries { trigger := { id, name := key, script, kinds := header.kinds, tier := header.tier } }
      children

/-- Compiles an entry. -/
def compileEntry (script : Path) (key : String) : Compiled Probe :=
  let words := Text.wordsBy Text.isAsciiBlank key.toList
  let tracker (squats : Bool) : Compiled Probe :=
    { result := (readTracker squats (words.drop 1)).map fun t => some (.tracker t) }
  if words.head? = some "track".toList then tracker false
  else if words.head? = some "squat".toList then tracker true
  else if key = "explode" then { result := .error (.panic (some "parser exploded")) }
  else if key = "explode oddly" then { result := .error (.panic none) }
  else if key = "ignore" then { result := .ok none }
  else if key = "chain" then { result := .error (.failure "top: middle: root") }
  else
    match after? "plain" key.toList, after? "complain" key.toList with
    | some name, _ => { result := .ok (some (.plain (String.ofList name))) }
    | _, some text =>
      { problems := [.malformed script none (.remark (String.ofList text))], result := .ok none }
    | none, none => { result := .error (.failure s!"can't understand: {key}") }

/-- The grammar. -/
def grammar : Grammar Probe where
  compile _ script id node :=
    match node with
    | .entry _ key => compileEntry script key
    | .block _ key children =>
      { result := (compileSection script id key children).map fun h => some (.handler h) }

end EventScripts.Probe
