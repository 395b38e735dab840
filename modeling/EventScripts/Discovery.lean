import EventScripts.FileSystem.Access
import EventScripts.Path.Marker
import EventScripts.Script.Problem
/-!
# Discovery of script files

A directory is searched with everything below it: first its own files, then
each subdirectory, both in the order of their names. Links are followed. Names
that start with a dot are passed over, files whose name starts with a dash are
disabled, and an entry that leads nowhere is a problem and nothing else.

This is the `SourceDiscovery` of `SPEC_FULL.md` §4.1, for names that are texts (see
`EventScripts.Path.Basic`).
-/

namespace EventScripts

/-- The extension of script files. -/
def scriptExtension : String := "sk"

/-- What a search has come upon, each in the order in which it came. -/
structure Discovered where
  enabled : List Path := []
  disabled : List Path := []
  problems : List Problem := []
deriving DecidableEq, Repr

namespace Discovered

/-- One search after another. -/
def append (a b : Discovered) : Discovered :=
  ⟨a.enabled ++ b.enabled, a.disabled ++ b.disabled, a.problems ++ b.problems⟩

def concat (founds : List Discovered) : Discovered := founds.foldl append {}

end Discovered

namespace Discovery

def isScript (path : Path) : Bool := path.extension? == some scriptExtension

/-- Whether the file name starts with a dot. -/
def isHidden (path : Path) : Bool :=
  path.fileName?.any fun name => name.toList.head? == some '.'

/-- What a single file counts for. -/
def classify (path : Path) : Discovered :=
  if isHidden path || !isScript path then {}
  else if path.isDisabled then { disabled := [path] }
  else { enabled := [path] }

/-- What the paths in a directory lead to. -/
structure Listing where
  files : List Path := []
  directories : List Path := []
  problems : List Problem := []

def Listing.add (files : FileSystem) (listing : Listing) (path : Path) : Listing :=
  match files.find path with
  | .ok (_, .directory) => { listing with directories := listing.directories ++ [path] }
  | .ok _ => { listing with files := listing.files ++ [path] }
  | .error e => { listing with problems := listing.problems ++ [.unreadable path e] }

/-- The paths of a directory that are not hidden. -/
def list (files : FileSystem) (directory : Path) (names : List String) : Listing :=
  ((names.map fun name => directory.join ⟨name⟩).filter (!isHidden ·)).foldl (Listing.add files) {}

def sorted (paths : List Path) : List Path :=
  paths.mergeSort fun a b => (Path.compareComponents a b).isLE

/-- Searches a directory down to the given depth. -/
def walk (files : FileSystem) : Nat → Path → Discovered
  | 0, _ => {}
  | depth + 1, directory =>
    match files.readDirectory directory with
    | .error e => { problems := [.unreadable directory e] }
    | .ok names =>
      let listing := list files directory names
      Discovered.concat <|
        { problems := listing.problems }
          :: (sorted listing.files).map classify
          ++ (sorted listing.directories).map (walk files depth)

/-- A depth that no path leads beyond: between two links, of which a path has at most
`FileSystem.maxLinks`, it only enters directories that lie in each other. -/
def maxDepth (files : FileSystem) : Nat :=
  (FileSystem.maxLinks + 1) * (files.entries.length + 1) + 1

end Discovery

/-- Searches a directory, or looks at a single file. -/
def discover (files : FileSystem) (root : Path) : Discovered :=
  match files.find root with
  | .ok (_, .directory) => Discovery.walk files (Discovery.maxDepth files) root
  | .ok _ => Discovery.classify root
  | .error e => { problems := [.unreadable root e] }

end EventScripts
