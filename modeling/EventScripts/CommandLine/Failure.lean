import EventScripts.Loader.Basic
import EventScripts.Log.File
import EventScripts.Settings.File
import EventScripts.Text.Quoted
/-!
# Failures that end the program

A failure that ends the program is shown as one line: a message of the program's
own in quotes, other errors by their parts.

`SPEC_FULL.md` §10.3 has the errors of the runner; how they are shown is the
program's, §10.6.
-/

namespace EventScripts.CommandLine

inductive Failure where
  | message (text : String)
  | settings (error : SettingsError)
  | log (error : Log.FileError)
  | scripts (problem : Problem)

/-- An error of the operating system, with its number and its kind. -/
def showIo (e : IoError) : String :=
  let kind :=
    match e with
    | .notFound => "NotFound"
    | .alreadyExists => "AlreadyExists"
    | .notDirectory => "NotADirectory"
    | .isDirectory => "IsADirectory"
    | .tooManyLinks => "FilesystemLoop"
    | .notText => "InvalidData"
  match e.code? with
  | some code =>
    s!"Os \x7b code: {code}, kind: {kind}, message: {Text.quoted e.reason} \x7d"
  | none => s!"Error \x7b kind: {kind}, message: {Text.quoted e.reason} \x7d"

def showSettings : SettingsError → String
  | .missing path => s!"NotFound({Text.quoted path.text})"
  | .malformed => "Parse"
  | .unwritable => "Serialize"
  | .io e => s!"Io({showIo e})"
  | .homeless => "NoConfigDir"

def showLog : Log.FileError → String
  | .homeless =>
    let reason := "Failed to find home directory"
    s!"Custom \x7b kind: NotFound, error: {Text.quoted reason} \x7d"
  | .io e => showIo e

def showScripts : Problem → String
  | .violated v => s!"Invariant \x7b message: {Text.quoted v.message} \x7d"
  | .workFailed f => s!"Pool \x7b message: {Text.quoted f.message} \x7d"
  | problem => Text.quoted problem.message

/-- The line that a failure is shown as. -/
def Failure.line : Failure → String
  | message text => "Error: " ++ Text.quoted text
  | settings e => "Error: " ++ showSettings e
  | log e => "Error: " ++ showLog e
  | scripts problem => "Error: " ++ showScripts problem

end EventScripts.CommandLine
