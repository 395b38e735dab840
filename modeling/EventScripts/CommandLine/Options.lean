import EventScripts.Path.Basic
import EventScripts.Text.Cut
import EventScripts.Text.Decimal
/-!
# Options

The words of a command line. Options have long names, and short ones that may
be written together behind one dash. Some take a value, which follows an equals
sign, or the short name directly, or is the next word, and which may be given
only once. Words are read one after the other; the first that asks for help or
cannot be read decides.

The flags are those of `SPEC_FULL.md` §10.4 (`--config`, `--script-dir`, `--workers`)
and §10.6 (`--init-config`).
-/

namespace EventScripts.CommandLine

structure Options where
  /-- How often the debug option is given. -/
  debug : Nat := 0
  config : Option Path := none
  scriptDir : Option Path := none
  workers : Option Nat := none
  initConfig : Bool := false
deriving DecidableEq, Repr

/-- The options that take a value. -/
inductive Valued where
  | config
  | scriptDir
  | workers
deriving DecidableEq, Repr

/-- What a command line asks for. -/
inductive Request where
  | run (options : Options)
  | help
  | version
  | refused
deriving DecidableEq, Repr

/-- What one word comes to: options, an option whose value is still to come, or an end. -/
inductive Word where
  | options (options : Options)
  | awaiting (options : Options) (option : Valued)
  | final (request : Request)

def pathValue? (value : List Char) : Option Path :=
  if value.isEmpty then none else some ⟨String.ofList value⟩

/-- Gives an option its value, if it has none yet and the value is one for it. -/
def Options.set? (options : Options) (value : List Char) : Valued → Option Options
  | .config =>
    if options.config.isSome then none
    else (pathValue? value).map fun path => { options with config := some path }
  | .scriptDir =>
    if options.scriptDir.isSome then none
    else (pathValue? value).map fun path => { options with scriptDir := some path }
  | .workers =>
    if options.workers.isSome then none
    else (Text.unsigned? 64 value).map fun count => { options with workers := some count }

def Word.ofSet (options : Options) (option : Valued) (value : List Char) : Word :=
  match options.set? value option with
  | some options => .options options
  | none => .final .refused

def valuedOfLetter? (c : Char) : Option Valued :=
  if c = 'c' then some .config
  else if c = 's' then some .scriptDir
  else if c = 'w' then some .workers
  else none

def valuedOfName? (name : String) : Option Valued :=
  if name = "config" then some .config
  else if name = "script-dir" then some .scriptDir
  else if name = "workers" then some .workers
  else none

/-- Reads the letters behind one dash. -/
def readLetters (options : Options) : List Char → Word
  | [] => .options options
  | c :: rest =>
    if c = 'd' then readLetters { options with debug := options.debug + 1 } rest
    else if c = 'h' then .final .help
    else if c = 'V' then .final .version
    else
      match valuedOfLetter? c, rest with
      | none, _ => .final .refused
      | some option, [] => .awaiting options option
      | some option, '=' :: value => Word.ofSet options option value
      | some option, value => Word.ofSet options option value

/-- Reads a long name and the value behind its equals sign, if there is one. -/
def readName (options : Options) (name : String) (value? : Option (List Char)) : Word :=
  match valuedOfName? name, value? with
  | some option, some value => Word.ofSet options option value
  | some option, none => .awaiting options option
  | none, some _ => .final .refused
  | none, none =>
    if name = "debug" then .options { options with debug := options.debug + 1 }
    else if name = "init-config" then
      if options.initConfig then .final .refused
      else .options { options with initConfig := true }
    else if name = "help" then .final .help
    else if name = "version" then .final .version
    else .final .refused

/-- Reads one word, which is not the value of an option before it. -/
def readWord (options : Options) : List Char → Word
  | '-' :: '-' :: rest =>
    match Text.cut? ['='] rest with
    | some (name, value) => readName options (String.ofList name) (some value)
    | none => readName options (String.ofList rest) none
  | '-' :: c :: rest => readLetters options (c :: rest)
  | _ => .final .refused

/-- Whether a word can be the value of the option before it: a lone dash can. -/
def isValue : List Char → Bool
  | ['-'] => true
  | '-' :: _ => false
  | _ => true

/-- Reads words. Nothing may follow two dashes by themselves. -/
def readWords (options : Options) : List (List Char) → Request
  | [] => .run options
  | ['-', '-'] :: rest => if rest.isEmpty then .run options else .refused
  | word :: rest =>
    match readWord options word with
    | .final request => request
    | .options options => readWords options rest
    | .awaiting options option =>
      match rest with
      | [] => .refused
      | value :: rest =>
        if isValue value then
          match options.set? value option with
          | some options => readWords options rest
          | none => .refused
        else .refused

/-- Reads a command line. -/
def read (words : List String) : Request := readWords {} (words.map String.toList)

end EventScripts.CommandLine
