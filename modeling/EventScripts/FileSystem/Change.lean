import EventScripts.FileSystem.Access
/-!
# Changing a file system

Entries are set and removed at locations; the operations on paths resolve
first. Writing follows a link in last place, also a link to nothing, which then
comes into being; making a directory never does.

Settings (`SPEC_FULL.md` §10.4) and the log (§10.2) make directories and write files.
Links, removal and renaming are what others do to the files between operations.
-/

namespace EventScripts.FileSystem

/-- Adds an entry where none is. -/
def add (files : FileSystem) (at_ : Location) (entry : Entry)
    (h : at_ ∉ files.entries.map (·.1)) : FileSystem where
  entries := (at_, entry) :: files.entries
  distinct := List.nodup_cons.2 ⟨h, files.distinct⟩
  workingDirectory := files.workingDirectory

/-- Changes the entry at a location that has one. -/
def change (files : FileSystem) (at_ : Location) (entry : Entry) : FileSystem where
  entries := files.entries.map fun e => if e.1 = at_ then (e.1, entry) else e
  distinct := by
    have h : (files.entries.map fun e => if e.1 = at_ then (e.1, entry) else e).map (·.1)
        = files.entries.map (·.1) := by
      rw [List.map_map]
      refine List.map_congr_left fun e _ => ?_
      by_cases he : e.1 = at_ <;> simp [he]
    rw [h]; exact files.distinct
  workingDirectory := files.workingDirectory

/-- Puts an entry at a location, in place of what was there. -/
def put (files : FileSystem) (at_ : Location) (entry : Entry) : FileSystem :=
  if h : at_ ∈ files.entries.map (·.1) then files.change at_ entry else files.add at_ entry h

/-- Removes a location and everything below it. -/
def removeTree (files : FileSystem) (at_ : Location) : FileSystem where
  entries := files.entries.filter fun e => !at_.isPrefixOf e.1
  distinct := files.distinct.sublist (List.Sublist.map _ List.filter_sublist)
  workingDirectory := files.workingDirectory

/-- Makes one directory. -/
def makeDirectory (files : FileSystem) (path : Path) : Except IoError FileSystem :=
  match files.resolve false path with
  | .error e => .error e
  | .ok (.found ..) => .error .alreadyExists
  | .ok (.missing parent name _) => .ok (files.put (parent ++ [name]) .directory)

/-- Makes a directory and those above it that are missing, given the path and its ancestors. A
directory that is there already is no error. What has been made before an error stays. -/
def makeDirectoriesAlong (files : FileSystem) : List Path → FileSystem × Except IoError Unit
  | [] => (files, .ok ())
  | path :: above =>
    let settle (files : FileSystem) (e : IoError) : FileSystem × Except IoError Unit :=
      (files, if files.isDirectory path then .ok () else .error e)
    if path.text.isEmpty then (files, .ok ())
    else
      match files.makeDirectory path with
      | .ok files => (files, .ok ())
      | .error .notFound =>
        match files.makeDirectoriesAlong above with
        | (files, .error e) => (files, .error e)
        | (files, .ok ()) =>
          match files.makeDirectory path with
          | .ok files => (files, .ok ())
          | .error e => settle files e
      | .error e => settle files e

end EventScripts.FileSystem

namespace EventScripts.Path

/-- A path, its parent, and so on, at most `count` of them. -/
def upward : Nat → Path → List Path
  | 0, _ => []
  | count + 1, path =>
    match path.parent? with
    | none => [path]
    | some parent => path :: upward count parent

/-- A path and all its ancestors, nearest first. -/
def ancestors (path : Path) : List Path := upward (path.components.length + 1) path

end EventScripts.Path

namespace EventScripts.FileSystem

/-- Makes a directory and those above it that are missing. -/
def makeDirectories (files : FileSystem) (path : Path) : FileSystem × Except IoError Unit :=
  files.makeDirectoriesAlong path.ancestors

/-- Writes a file, which is made if it is missing and loses its old content if not. -/
def write (files : FileSystem) (path : Path) (content : Content) : Except IoError FileSystem :=
  match files.resolve true path with
  | .error e => .error e
  | .ok (.found at_ (.file _)) => .ok (files.put at_ (.file content))
  | .ok (.found _ _) => .error .isDirectory
  | .ok (.missing parent name mustBeDirectory) =>
    if mustBeDirectory then .error .isDirectory
    else .ok (files.put (parent ++ [name]) (.file content))

/-- Adds text to the end of a file, which is made if it is missing. -/
def append (files : FileSystem) (path : Path) (text : String) : Except IoError FileSystem :=
  match files.find path with
  | .ok (_, .file content) => files.write path (content.append text)
  | _ => files.write path (.text text)

/-- Makes a symbolic link. -/
def makeLink (files : FileSystem) (path target : Path) : Except IoError FileSystem :=
  match files.resolve false path with
  | .error e => .error e
  | .ok (.found ..) => .error .alreadyExists
  | .ok (.missing parent name mustBeDirectory) =>
    if mustBeDirectory then .error .notFound else .ok (files.put (parent ++ [name]) (.link target))

/-- Removes a file, a link or a tree; nothing happens if there is none. -/
def remove (files : FileSystem) (path : Path) : FileSystem :=
  match files.resolve false path with
  | .ok (.found at_ _) => files.removeTree at_
  | _ => files

/-- Moves an entry with everything below it from one location to another. -/
def move (files : FileSystem) (source target : Location) : FileSystem :=
  let moved := files.entries.filter fun e => source.isPrefixOf e.1
  let rest := (files.removeTree source).removeTree target
  moved.reverse.foldl (fun files e => files.put (target ++ e.1.drop source.length) e.2) rest

/-- Renames a file, a link or a directory. A file takes the place of a file or link, a directory
that of an empty directory. -/
def rename (files : FileSystem) (path target : Path) : Except IoError FileSystem :=
  match files.resolve false path with
  | .error e => .error e
  | .ok (.missing ..) => .error .notFound
  | .ok (.found source entry) =>
    match files.resolve false target with
    | .error e => .error e
    | .ok (.missing parent name _) => .ok (files.move source (parent ++ [name]))
    | .ok (.found at_ old) =>
      if at_ = source then .ok files
      else
        match entry, old with
        | .directory, .directory =>
          if (files.namesBelow at_).isEmpty then .ok (files.move source at_) else .error .alreadyExists
        | .directory, _ => .error .notDirectory
        | _, .directory => .error .isDirectory
        | _, _ => .ok (files.move source at_)

end EventScripts.FileSystem
