import EventScripts.CommandLine.Launch
/-!
# The program

The outermost layer: it takes the words of the command line, the environment
and the files that a run may look at, hands them over, prints what comes back
and writes changed files to the disk. The end of the console's input stands for
the request to stop.

The `skhost` program of `SPEC_FULL.md` §10.6 (Runner). Only this module reads the
disk, and nothing is proved about it.
-/

namespace EventScripts.Program

open CommandLine

/-- What has been taken over from the disk: files, and the locations whose contents are in them. -/
structure Taken where
  files : FileSystem := {}
  complete : List Location := []

/-- A path on the disk. -/
def onDisk (at_ : Location) : IO.FS.DirEntry := { root := "/", fileName := (Path.ofNames at_).text }

def locationOf (path : String) : Location :=
  (FileSystem.steps ⟨path⟩).filterMap fun step =>
    match step with
    | .down name => some name
    | _ => none

/-- The location that a path on the disk comes to when all links are followed. -/
def realLocation? (at_ : Location) : IO (Option Location) := do
  try
    return some (locationOf (← IO.FS.realPath (onDisk at_).path).toString)
  catch _ => return none

/-- Takes over what stands at a location itself: a directory, or a link that leads somewhere. -/
def takeEntry (taken : Taken) (at_ : Location) : IO Taken := do
  try
    match (← (onDisk at_).path.symlinkMetadata).type with
    | .dir => return { taken with files := taken.files.put at_ .directory }
    | .symlink =>
      match ← realLocation? at_ with
      | some target =>
        return { taken with files := taken.files.put at_ (.link (Path.ofNames target)) }
      | none => return taken
    | _ => return taken
  catch _ => return taken

/-- Takes over a location and those above it. -/
def takeAbove (taken : Taken) (at_ : Location) : IO Taken :=
  (List.range at_.length).foldlM (fun taken n => takeEntry taken (at_.take (n + 1))) taken

/-- Takes over everything at a location and below it. Of files whose name is not that of a script
only the first one is read. -/
partial def takeTree (taken : Taken) (at_ : Location) (isFirst : Bool := true) : IO Taken := do
  let taken ← takeAbove taken at_
  let some at_ ← realLocation? at_ | return taken
  if at_.isEmpty || taken.complete.contains at_ then return taken
  let mut taken ← takeAbove { taken with complete := at_ :: taken.complete } at_
  let path := (onDisk at_).path
  if ← path.isDir then
    for entry in ← path.readDir do
      taken ← takeTree taken (at_ ++ [entry.fileName]) false
    return taken
  else
    let isScript := (at_.getLast?.bind Path.extensionOf?) == some "sk"
    let bytes ← if isFirst || isScript then IO.FS.readBinFile path else pure ByteArray.empty
    return { taken with files := taken.files.put at_ (.file (.ofBytes bytes.toList)) }

/-- The variables of the environment that a run looks at. -/
def environment : IO Environment := do
  let names := ["HOME", "USERPROFILE", "XDG_CONFIG_HOME", "XDG_DATA_HOME", "RUST_LOG"]
  let bindings ← names.filterMapM fun name => do return (← IO.getEnv name).map (name, ·)
  return { bindings }

/-- The files that a run may look at: its settings, its log and its scripts. -/
def surroundings (words : List String) (env : Environment) : IO FileSystem := do
  let here := locationOf (← IO.currentDir).toString
  let absolute (path : Path) : Location := locationOf ((Path.ofNames here).join path).text
  let start ← takeAbove {} here
  let start := { start with files := { start.files with workingDirectory := here } }
  match read words with
  | .run options =>
    let first := (options.config.or (Settings.defaultPath? env)).toList
    let taken ← first.foldlM (fun taken path => takeTree taken (absolute path)) start
    let settings := (loadSettings options.config env taken.files).toOption.getD {}
    let scripts := (options.override settings).scripting.directory env
    let log := (Log.path? env).toList
    let taken ← (scripts :: log).foldlM (fun taken path => takeTree taken (absolute path)) taken
    return taken.files
  | _ => return start.files

/-- Writes the files to the disk that have changed. -/
def store (before after : FileSystem) : IO Unit := do
  for (at_, entry) in after.entries do
    if before.entry? at_ ≠ some entry then
      match entry with
      | .file content =>
        IO.FS.createDirAll (onDisk at_.dropLast).path
        IO.FS.writeBinFile (onDisk at_).path content.bytes
      | _ => pure ()

/-- Prints the lines of the output from a place on, and writes changed files. -/
def report (printed : Nat) (output : List String) (before after : FileSystem) : IO Unit := do
  for line in output.drop printed do
    IO.println line
  store before after

/-- Prints what a run has come to. -/
def conclude (printed : Nat) (before : FileSystem) (outcome : Outcome) : IO UInt32 := do
  report printed outcome.output before outcome.files
  for line in outcome.errors do
    IO.eprintln line
  return UInt32.ofNat outcome.code

/-- Passes lines from the console on until there are no more. -/
partial def converse (input : IO.FS.Stream) (printed : Nat) (before : FileSystem)
    (session : Session) : IO UInt32 := do
  let console := session.console
  report printed console.output before console.files
  let line ← input.getLine
  if line.isEmpty then conclude console.output.length console.files (finish session)
  else
    let text := ((Text.lines line.toList).head?.map String.ofList).getD ""
    converse input console.output.length console.files (session.line text)

end EventScripts.Program

def main (words : List String) : IO UInt32 := do
  let env ← EventScripts.Program.environment
  let files ← EventScripts.Program.surroundings words env
  match EventScripts.CommandLine.launch words env files with
  | .ended outcome => EventScripts.Program.conclude 0 files outcome
  | .running session => EventScripts.Program.converse (← IO.getStdin) 0 files session
