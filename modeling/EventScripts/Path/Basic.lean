import EventScripts.Text.Cut
/-!
# Paths

A path is a text whose parts are separated by slashes. Its meaning is its list
of components: repeated slashes, a slash at the end and parts that are a single
dot do not count, except for a dot at the very start. Two paths are the same
(`same`) when their components are; the text is kept because it is what is
shown.

Names are Unicode texts. A file system may also hold names that are not, and of
such a name one cannot ask for a first character or an extension, as `SPEC_FULL.md`
§4.1 and §6 do. They are outside the model: every entry of a directory has a
name that is a text.
-/

namespace EventScripts

/-- A path as it was written. -/
structure Path where
  text : String
deriving DecidableEq, Repr, Inhabited

/-- One component of a path. -/
inductive Component where
  | root
  | here
  | up
  | name (name : String)
deriving DecidableEq, Repr

namespace Component

/-- The rank among the sorts of components, then the name. -/
def sortKey : Component → Nat × String
  | root => (0, "")
  | here => (1, "")
  | up => (2, "")
  | name n => (3, n)

instance : Ord Component where
  compare a b := (compare a.sortKey.1 b.sortKey.1).then (compare a.sortKey.2 b.sortKey.2)

/-- The component that one part of a text stands for. -/
def ofPiece? : List Char → Option Component
  | [] => none
  | ['.'] => none
  | ['.', '.'] => some up
  | cs => some (name (String.ofList cs))

end Component

namespace Path

def isSlash (c : Char) : Bool := c == '/'

/-- The parts of a text, where one that starts with a slash has an empty first part. -/
def piecesOf (cs : List Char) : List (List Char) := Text.pieces isSlash cs

/-- The components of a text given its parts. -/
def componentsOf : List (List Char) → List Component
  | [] => []
  | [] :: [] => []
  | [] :: rest => .root :: rest.filterMap Component.ofPiece?
  | ['.'] :: rest => .here :: rest.filterMap Component.ofPiece?
  | parts => parts.filterMap Component.ofPiece?

def components (path : Path) : List Component := componentsOf (piecesOf path.text.toList)

/-- The same path, in whatever spelling. -/
def same (a b : Path) : Bool := a.components == b.components

def isAbsolute (path : Path) : Bool := path.text.toList.head? == some '/'

/-- The last component, if it is a name. -/
def fileName? (path : Path) : Option String :=
  match path.components.getLast? with
  | some (.name n) => some n
  | _ => none

/-- Whether a part counts as no component, unless it comes first. -/
def isIdle (part : List Char) : Bool := part.isEmpty || part == ['.']

/-- The parts without those at the end that do not count. The first part always stays. -/
def dropIdle : List (List Char) → List (List Char)
  | [] => []
  | first :: rest => first :: (rest.reverse.dropWhile isIdle).reverse

/-- The text with the given parts; a lone empty part after which others were dropped is the root. -/
def ofPieces (absolute : Bool) (parts : List (List Char)) : Path :=
  if absolute && parts == [[]] then ⟨"/"⟩
  else ⟨String.ofList (['/'].intercalate parts)⟩

/-- The path without its last component and without separators at its end; `none` for a root and
for the empty path. -/
def parent? (path : Path) : Option Path :=
  match path.components.getLast? with
  | none => none
  | some .root => none
  | some _ =>
    match dropIdle (piecesOf path.text.toList) with
    | [] => none
    | [_] => some ⟨""⟩
    | parts => some (ofPieces path.isAbsolute (dropIdle parts.dropLast))

/-- Appends a path; an absolute one replaces everything. -/
def join (path other : Path) : Path :=
  if other.isAbsolute then other
  else
    match path.text.toList.getLast? with
    | none => other
    | some '/' => ⟨path.text ++ other.text⟩
    | some _ => ⟨path.text ++ "/" ++ other.text⟩

/-- The path with another last component, which takes the place of a name. -/
def withFileName (path : Path) (name : String) : Path :=
  match path.fileName? with
  | some _ => (path.parent?.getD ⟨""⟩).join ⟨name⟩
  | none => path.join ⟨name⟩

/-- The part of a file name behind its last dot, unless the name only starts with that dot. -/
def extensionOf? (name : String) : Option String :=
  let behind := name.toList.reverse.takeWhile (· ≠ '.')
  let before := (name.toList.reverse.drop (behind.length + 1)).reverse
  if name = ".." || before.isEmpty then none else some (String.ofList behind.reverse)

def extension? (path : Path) : Option String := path.fileName?.bind extensionOf?

/-- Whether the components of `base` are the first ones of `path`. -/
def startsWith (path base : Path) : Bool := base.components.isPrefixOf path.components

/-- Order of paths by their components, read as lists. -/
def compareComponents (a b : Path) : Ordering := compare a.components b.components

/-- The absolute path with the given names. -/
def ofNames (names : List String) : Path :=
  if names.isEmpty then ⟨"/"⟩ else ⟨String.join (names.map ("/" ++ ·))⟩

end Path

end EventScripts
