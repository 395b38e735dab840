import EventScripts.Settings.Basic
import EventScripts.Toml.Document
import EventScripts.Toml.Writer
/-!
# Settings as a document

Settings are a table of two tables. `toTable` and `ofTable?` go to and fro;
what is missing has its default, and keys that mean nothing are passed over. A
group of settings may also be given as a list of values in the order of its
fields, or as a date, which sets nothing. How a document becomes a text is left to a
`Codec`; settings files are in TOML.

The tables and defaults of `skhost.toml`, `SPEC_FULL.md` §10.4.
-/

namespace EventScripts.Settings

open Toml (Value)

/-- The entries of a group of settings, given the names of its fields. -/
def groupOf? (fields : List String) : Value → Option (List (String × Value))
  | .table entries => some entries
  | .array items => some (fields.zip items)
  | .date => some []
  | _ => none

def boolean? : Value → Option Bool
  | .boolean b => some b
  | _ => none

def count? : Value → Option Nat
  | .integer n => if 0 ≤ n then some n.toNat else none
  | _ => none

def path? : Value → Option Path
  | .string s => some ⟨s⟩
  | _ => none

/-- The setting under a key: the fallback if the key is missing, nothing if its value is of the
wrong kind. -/
def setting? {α : Type} (read : Value → Option α) (entries : List (String × Value)) (key : String)
    (fallback : α) : Option α :=
  match entries.lookup key with
  | none => some fallback
  | some value => read value

def Scripting.keys : List String :=
  ["enabled", "script_dir", "worker_threads", "reload_on_signal"]

def Scripting.ofValue? (value : Value) : Option Scripting := do
  let entries ← groupOf? keys value
  let fallback : Scripting := {}
  let enabled ← setting? boolean? entries "enabled" fallback.enabled
  let scriptDir ← setting? (fun v => (path? v).map some) entries "script_dir" fallback.scriptDir
  let workerThreads ← setting? count? entries "worker_threads" fallback.workerThreads
  let reloadOnSignal ← setting? boolean? entries "reload_on_signal" fallback.reloadOnSignal
  return { enabled, scriptDir, workerThreads, reloadOnSignal }

def Logging.keys : List String := ["file"]

def Logging.ofValue? (value : Value) : Option Logging := do
  let entries ← groupOf? keys value
  let fallback : Logging := {}
  let file ← setting? boolean? entries "file" fallback.file
  return { file }

/-- The settings that the table of a document makes. -/
def ofTable? (table : List (String × Value)) : Option Settings := do
  let scripting ← setting? Scripting.ofValue? table "scripting" {}
  let logging ← setting? Logging.ofValue? table "logging" {}
  return { scripting, logging }

def Scripting.toTable (scripting : Scripting) : List (String × Value) :=
  let scriptDir :=
    match scripting.scriptDir with
    | some dir => [("script_dir", Value.string dir.text)]
    | none => []
  [("enabled", .boolean scripting.enabled)] ++ scriptDir
    ++ [("worker_threads", .integer scripting.workerThreads),
      ("reload_on_signal", .boolean scripting.reloadOnSignal)]

def Logging.toTable (logging : Logging) : List (String × Value) := [("file", .boolean logging.file)]

/-- The table of a document for some settings; only a script directory may be left out. -/
def toTable (settings : Settings) : List (String × Value) :=
  [("scripting", .table settings.scripting.toTable), ("logging", .table settings.logging.toTable)]

/-! ## Texts -/

/-- A way of writing documents as texts, and of reading them. -/
structure Codec where
  read : String → Option (List (String × Value))
  write? : List (String × Value) → Option String

namespace Codec

/-- The way in which settings files are written. -/
def toml : Codec := ⟨Toml.read, Toml.write?⟩

/-- The settings that a text makes. -/
def settings? (codec : Codec) (text : String) : Option Settings := (codec.read text).bind ofTable?

/-- The text for some settings, unless a number in them is too large to be written. -/
def render? (codec : Codec) (settings : Settings) : Option String := codec.write? settings.toTable

end Codec

def read? (text : String) : Option Settings := Codec.toml.settings? text

def render? (settings : Settings) : Option String := Codec.toml.render? settings

end EventScripts.Settings
