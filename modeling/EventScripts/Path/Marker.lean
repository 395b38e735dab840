import EventScripts.Path.Basic
/-!
# Marker paths

A script is disabled by a dash in front of its file name. The path with the
dash is the marker of the path without it. Only the file name changes; a path
without a file name is its own marker.

The reserved prefix of disabled files, `SPEC_FULL.md` §4.1 and §6, and the markers of
§4.4.
-/

namespace EventScripts.Path

/-- Whether the file name starts with a dash. -/
def isDisabled (path : Path) : Bool :=
  path.fileName?.any fun name => name.toList.head? == some '-'

/-- The marker of a script: `-a.sk` for `a.sk`, beside it. A marker is its own marker. -/
def disabled (path : Path) : Path :=
  match path.fileName? with
  | some name => if name.toList.head? == some '-' then path else path.withFileName ("-" ++ name)
  | none => path

/-- The script of a marker: `a.sk` for `-a.sk`, beside it. -/
def enabled (path : Path) : Path :=
  match path.fileName? with
  | some name =>
    match name.toList with
    | '-' :: rest => path.withFileName (String.ofList rest)
    | _ => path
  | none => path

end EventScripts.Path
