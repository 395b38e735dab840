import EventScripts.Path.Basic
/-!
# File systems

A file system is a finite map from locations (the names on the way down from
the root) to files, directories and symbolic links, together with the working
directory. The root is always a directory. An entry whose parent is not a
directory is out of reach.

`walk` is the one resolution of paths: it follows the components of a path from
a directory, replaces a link by its target, and refuses more than `maxLinks`
links. It either finds an entry or says where the last component is missing.

`SPEC_FULL.md` §6 leaves the file system to the platform. It is modelled as far as
paths go: there are no permissions and no special files, and names are texts (see
`EventScripts.Path.Basic`).
-/

namespace EventScripts

/-- Why a file operation fails. -/
inductive IoError where
  | notFound
  | alreadyExists
  | notDirectory
  | isDirectory
  | tooManyLinks
  | notText
deriving DecidableEq, Repr

namespace IoError

/-- The message of the operating system and its number; text that cannot be decoded has none. -/
def code? : IoError → Option Nat
  | notFound => some 2
  | alreadyExists => some 17
  | notDirectory => some 20
  | isDirectory => some 21
  | tooManyLinks => some 40
  | notText => none

def reason : IoError → String
  | notFound => "No such file or directory"
  | alreadyExists => "File exists"
  | notDirectory => "Not a directory"
  | isDirectory => "Is a directory"
  | tooManyLinks => "Too many levels of symbolic links"
  | notText => "stream did not contain valid UTF-8"

def message (e : IoError) : String :=
  match e.code? with
  | some code => s!"{e.reason} (os error {code})"
  | none => e.reason

end IoError

/-- What a file holds: text, or bytes that are not the encoding of any text. -/
inductive Content where
  | text (text : String)
  | binary (bytes : List UInt8)
deriving DecidableEq, Repr

namespace Content

/-- The content made of some bytes. -/
def ofBytes (bytes : List UInt8) : Content :=
  match String.fromUTF8? ⟨bytes.toArray⟩ with
  | some s => text s
  | none => binary bytes

def bytes : Content → ByteArray
  | text s => s.toUTF8
  | binary bytes => ⟨bytes.toArray⟩

/-- The number of bytes. -/
def size : Content → Nat
  | text s => s.utf8ByteSize
  | binary bytes => bytes.length

/-- The content with text behind it. -/
def append : Content → String → Content
  | text s, more => text (s ++ more)
  | binary bytes, more => ofBytes (bytes ++ more.toUTF8.toList)

end Content

/-- What stands at a location. -/
inductive Entry where
  | file (content : Content)
  | directory
  | link (target : Path)
deriving DecidableEq, Repr

/-- The names on the way from the root. -/
abbrev Location := List String

/-- The entries below the root, one for each location, and the working directory. -/
structure FileSystem where
  entries : List (Location × Entry) := []
  distinct : (entries.map (·.1)).Nodup := by simp
  workingDirectory : Location := []

namespace FileSystem

/-- How many links one resolution may follow. -/
def maxLinks : Nat := 40

/-- What stands at a location. -/
def entry? (files : FileSystem) (at_ : Location) : Option Entry :=
  if at_ = [] then some .directory else files.entries.lookup at_

/-- A step of a resolution: stay (which needs a directory), go up, or go down. -/
inductive Step where
  | stay
  | up
  | down (name : String)
deriving DecidableEq, Repr

/-- The steps that the parts of a path stand for. An empty part in the middle is nothing; an
empty last part asks for a directory. -/
def stepsOfPieces : List (List Char) → List Step
  | [] => []
  | [[]] => [.stay]
  | [] :: rest => stepsOfPieces rest
  | ['.'] :: rest => .stay :: stepsOfPieces rest
  | ['.', '.'] :: rest => .up :: stepsOfPieces rest
  | name :: rest => .down (String.ofList name) :: stepsOfPieces rest

/-- The steps of a path; none for the empty path, which resolves to nothing. -/
def steps (path : Path) : List Step :=
  if path.text.toList.isEmpty then [] else stepsOfPieces (Path.piecesOf path.text.toList)

/-- Where a resolution ends: at an entry, or at a directory in which the last name is missing.
`mustBeDirectory` when the path asks for a directory behind that name. -/
inductive Place where
  | found (at_ : Location) (entry : Entry)
  | missing (parent : Location) (name : String) (mustBeDirectory : Bool)
deriving DecidableEq, Repr

/-- Whether nothing but requests for a directory is left. -/
def atEnd (rest : List Step) : Bool := rest.all (· == .stay)

/-- Follows steps from a directory. `follow` tells whether a link in last place is followed; it
always is when more steps come after it. -/
def walk (files : FileSystem) (follow : Bool) :
    Nat → List Step → Location → Except IoError Place
  | _, [], here =>
    match files.entry? here with
    | some entry => .ok (.found here entry)
    | none => .error .notFound
  | budget, .stay :: rest, here => files.walk follow budget rest here
  | budget, .up :: rest, here => files.walk follow budget rest here.dropLast
  | budget, .down name :: rest, here =>
    match files.entry? (here ++ [name]) with
    | none => if atEnd rest then .ok (.missing here name (!rest.isEmpty)) else .error .notFound
    | some .directory => files.walk follow budget rest (here ++ [name])
    | some (.file content) =>
      if rest.isEmpty then .ok (.found (here ++ [name]) (.file content)) else .error .notDirectory
    | some (.link target) =>
      if rest.isEmpty && !follow then .ok (.found (here ++ [name]) (.link target))
      else
        match budget with
        | 0 => .error .tooManyLinks
        | budget + 1 =>
          files.walk follow budget (steps target ++ rest) (if target.isAbsolute then [] else here)
termination_by budget steps => (budget, steps.length)

/-- Resolves a path from the working directory. -/
def resolve (files : FileSystem) (follow : Bool) (path : Path) : Except IoError Place :=
  if path.text.isEmpty then .error .notFound
  else files.walk follow maxLinks (steps path) (if path.isAbsolute then [] else files.workingDirectory)

end FileSystem

end EventScripts
