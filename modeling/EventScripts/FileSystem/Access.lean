import EventScripts.FileSystem.Basic
/-!
# Reading a file system

The questions that are asked of a file system: whether a path leads to
something and to what, which location it resolves to, what a directory holds
and what a text file says. All of them follow symbolic links.

`SPEC_FULL.md` §6 leaves the file system to the platform; these are the questions that
discovery (§4.1), loading (§4.2) and settings (§10.4) ask of it.
-/

namespace EventScripts.FileSystem

/-- The location and the entry that a path leads to. -/
def find (files : FileSystem) (path : Path) : Except IoError (Location × Entry) :=
  match files.resolve true path with
  | .error e => .error e
  | .ok (.missing ..) => .error .notFound
  | .ok (.found at_ entry) => .ok (at_, entry)

/-- Whether a path leads to anything. -/
def exists? (files : FileSystem) (path : Path) : Bool := (files.find path).isOk

/-- Whether a path leads to a directory. -/
def isDirectory (files : FileSystem) (path : Path) : Bool :=
  match files.find path with
  | .ok (_, .directory) => true
  | _ => false

/-- The absolute path without links and detours that a path leads to. -/
def canonical (files : FileSystem) (path : Path) : Except IoError Path :=
  (files.find path).map fun (at_, _) => Path.ofNames at_

/-- The names directly below a location, in the order in which they were made. -/
def namesBelow (files : FileSystem) (at_ : Location) : List String :=
  (files.entries.filterMap fun (l, _) =>
    match l.getLast? with
    | some name => if l.dropLast = at_ then some name else none
    | none => none).reverse

/-- The names in a directory. -/
def readDirectory (files : FileSystem) (path : Path) : Except IoError (List String) :=
  match files.find path with
  | .error e => .error e
  | .ok (at_, .directory) => .ok (files.namesBelow at_)
  | .ok _ => .error .notDirectory

/-- The text of a file. -/
def readText (files : FileSystem) (path : Path) : Except IoError String :=
  match files.find path with
  | .error e => .error e
  | .ok (_, .file (.text s)) => .ok s
  | .ok (_, .file (.binary _)) => .error .notText
  | .ok _ => .error .isDirectory

/-- The size of what a path leads to; a directory counts as empty. -/
def size (files : FileSystem) (path : Path) : Except IoError Nat :=
  (files.find path).map fun (_, entry) =>
    match entry with
    | .file content => content.size
    | _ => 0

end EventScripts.FileSystem
