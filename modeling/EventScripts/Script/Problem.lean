import EventScripts.Fault
import EventScripts.FileSystem.Basic
import EventScripts.Log.Record
import EventScripts.Script.Phase
/-!
# Problems with scripts

Everything that can go wrong between the discovery of a script file and the
execution of its statements, as causes, with the wording in `Problem.message`.
All problems are reported and absorbed, except the violations and a scope that
does not open, which are also returned to the caller.

The taxonomy of `SPEC_FULL.md` §7, as §10.3 has it.
-/

namespace EventScripts

/-- What is wrong with a file or with one block of it. -/
inductive Flaw where
  | mixedIndentation
  | unexpectedIndentation (expected found : Nat)
  | uncompiled (fault : Fault)
  | remark (text : String)
deriving DecidableEq, Repr

def Flaw.message : Flaw → String
  | mixedIndentation => "indentation mixes tabs and spaces"
  | unexpectedIndentation expected found =>
    s!"unexpected indentation (expected {expected}, found {found}), line skipped"
  | uncompiled fault => fault.message
  | remark text => text

/-- What went wrong around a piece of work that was given to the workers or around the
activation of a batch. -/
inductive WorkFault where
  | work (fault : Fault)
  | scopeNotOpened (fault : Fault)
  | scopeNotClosed (fault : Fault)
  | abandoned
deriving DecidableEq, Repr

def WorkFault.message : WorkFault → String
  | work fault => fault.message
  | scopeNotOpened fault => "failed to open resource scope: " ++ fault.message
  | scopeNotClosed fault => "failed to close resource scope: " ++ fault.message
  | abandoned => "task was dropped before it completed"

/-- What a caller must not ask for. -/
inductive Violation where
  | listedTwice (path : Path)
  | alreadyLoaded (path : Path)
deriving DecidableEq, Repr

def Violation.message : Violation → String
  | listedTwice path => s!"script {path.text} is listed twice in one batch"
  | alreadyLoaded path => s!"script {path.text} is already loaded"

inductive Problem where
  /-- A file cannot be read or resolved. -/
  | unreadable (path : Path) (cause : IoError)
  /-- A file, or the block that starts at a line of it, is malformed. -/
  | malformed (path : Path) (line : Option Nat) (flaw : Flaw)
  /-- A callback or a statement failed; without a cause the structure was turned away. -/
  | phaseFailed (phase : Phase) (script : Path) (owner : String) (cause : Option Fault)
  | workFailed (cause : WorkFault)
  | violated (violation : Violation)
deriving DecidableEq, Repr

namespace Problem

def message : Problem → String
  | unreadable path cause => s!"cannot read {path.text}: {cause.message}"
  | malformed path (some line) flaw => s!"{path.text}:{line}: {flaw.message}"
  | malformed path none flaw => s!"{path.text}: {flaw.message}"
  | phaseFailed phase script owner cause =>
    let reason := (cause.map Fault.message).getD "structure rejected"
    s!"{phase.name} failed for '{owner}' in {script.text}: {reason}"
  | workFailed cause => s!"worker task failed: {cause.message}"
  | violated violation => s!"invariant violated: {violation.message}"

/-- The script file that the problem belongs to, if there is one. -/
def script? : Problem → Option Path
  | unreadable path _ | malformed path _ _ | phaseFailed _ path _ _ => some path
  | workFailed _ | violated _ => none

/-- A flawed file is a warning, everything else an error. -/
def record (problem : Problem) : Log.Record :=
  let level : Log.Level :=
    match problem with
    | unreadable .. | malformed .. => .warn
    | phaseFailed .. | workFailed _ | violated _ => .error
  ⟨level, "scripting", problem.message⟩

end Problem

end EventScripts
