import EventScripts.Discovery
/-!
# What a search finds

A search finds the files of a directory that count as scripts and what the
searches of its subdirectories find. Everything it finds leads to something.
-/

namespace EventScripts

variable {files : FileSystem} {path : Path}

namespace Discovered

/-- All scripts that a search has come upon. -/
def scripts (found : Discovered) : List Path := found.enabled ++ found.disabled

/-- What some searches have come upon one after another, of whichever kind. -/
theorem mem_concat {part : Discovered → List Path} (hnone : part {} = [])
    (happend : ∀ a b, path ∈ part (a.append b) ↔ path ∈ part a ∨ path ∈ part b)
    (founds : List Discovered) :
    path ∈ part (concat founds) ↔ ∃ found ∈ founds, path ∈ part found := by
  have hfold : ∀ (founds : List Discovered) (start : Discovered),
      path ∈ part (founds.foldl append start) ↔
        path ∈ part start ∨ ∃ found ∈ founds, path ∈ part found := by
    intro founds
    induction founds with
    | nil => simp
    | cons found founds ih =>
      intro start
      rw [List.foldl_cons, ih, happend]
      simp [or_assoc]
  simpa [concat, hnone] using hfold founds {}

theorem mem_enabled_concat (founds : List Discovered) :
    path ∈ (concat founds).enabled ↔ ∃ found ∈ founds, path ∈ found.enabled :=
  mem_concat rfl (fun _ _ => List.mem_append) founds

theorem mem_scripts_concat (founds : List Discovered) :
    path ∈ (concat founds).scripts ↔ ∃ found ∈ founds, path ∈ found.scripts := by
  refine mem_concat rfl (fun a b => ?_) founds
  simp only [scripts, append, List.mem_append]
  exact or_or_or_comm

end Discovered

namespace Discovery

theorem mem_scripts_classify {file : Path} (h : path ∈ (classify file).scripts) : path = file := by
  unfold classify at h
  split at h
  · cases h
  · split at h <;> simpa [Discovered.scripts] using h

theorem mem_enabled_classify {file : Path} (h : path ∈ (classify file).enabled) : path = file :=
  mem_scripts_classify (List.mem_append_left _ h)

theorem mem_sorted {paths : List Path} : path ∈ sorted paths ↔ path ∈ paths :=
  List.mem_mergeSort

/-! ## The entries of one directory -/

/-- The path leads to something other than a directory. -/
def isFile (files : FileSystem) (path : Path) : Bool :=
  match files.find path with
  | .ok (_, .directory) => false
  | .ok _ => true
  | .error _ => false

/-- A path that leads nowhere, and why. -/
def lost? (files : FileSystem) (path : Path) : Option (Path × IoError) :=
  match files.find path with
  | .ok _ => none
  | .error e => some (path, e)

/-- What is reported of a path that leads nowhere. -/
def report (lost : Path × IoError) : Problem := .unreadable lost.1 lost.2

theorem isFile_iff : isFile files path = true ↔
    ∃ at_ entry, files.find path = .ok (at_, entry) ∧ entry ≠ .directory := by
  unfold isFile
  split
  · next at_ h => simp [h]
  · next found hne h =>
    obtain ⟨at_, entry⟩ := found
    simp only [h, true_iff]
    exact ⟨at_, entry, rfl, fun he => hne at_ (by rw [he])⟩
  · next e h => simp [h]

/-- A listing is made up of the paths that lead to files, to directories and nowhere. -/
theorem foldl_add (paths : List Path) (listing : Listing) :
    paths.foldl (Listing.add files) listing =
      { files := listing.files ++ paths.filter (isFile files)
        directories := listing.directories ++ paths.filter files.isDirectory
        problems := listing.problems ++ (paths.filterMap (lost? files)).map report } := by
  induction paths generalizing listing with
  | nil => simp
  | cons p paths ih =>
    rw [List.foldl_cons, ih]
    unfold Listing.add
    cases hfind : files.find p with
    | error e =>
      have hfile : isFile files p = false := by rw [isFile, hfind]
      have hdirectory : files.isDirectory p = false := by rw [FileSystem.isDirectory, hfind]
      have hlost : lost? files p = some (p, e) := by rw [lost?, hfind]
      simp [hfile, hdirectory, hlost, report]
    | ok found =>
      obtain ⟨at_, entry⟩ := found
      have hlost : lost? files p = none := by rw [lost?, hfind]
      cases entry with
      | directory =>
        have hfile : isFile files p = false := by rw [isFile, hfind]
        have hdirectory : files.isDirectory p = true := by rw [FileSystem.isDirectory, hfind]
        simp [hfile, hdirectory, hlost]
      | file content | link target =>
        have hfile : isFile files p = true := by rw [isFile, hfind]
        have hdirectory : files.isDirectory p = false := by rw [FileSystem.isDirectory, hfind]
        simp [hfile, hdirectory, hlost]

/-- What a directory lists, apart from hidden entries. -/
theorem list_eq (directory : Path) (names : List String) : list files directory names =
    { files := ((names.map fun name => directory.join ⟨name⟩).filter (!isHidden ·)).filter
        (isFile files)
      directories := ((names.map fun name => directory.join ⟨name⟩).filter (!isHidden ·)).filter
        files.isDirectory
      problems := (((names.map fun name => directory.join ⟨name⟩).filter
        (!isHidden ·)).filterMap (lost? files)).map report } := foldl_add _ {}

/-- The files of a directory lead somewhere. -/
theorem find_of_mem_files {directory : Path} {names : List String}
    (h : path ∈ (list files directory names).files) : ∃ found, files.find path = .ok found := by
  rw [list_eq] at h
  obtain ⟨at_, entry, hfind, -⟩ := isFile_iff.1 (List.mem_filter.1 h).2
  exact ⟨_, hfind⟩

/-! ## Searches -/

/-- **What a search comes upon**: a file of the directory, or what a search of a subdirectory comes
upon. -/
theorem mem_enabled_walk {depth : Nat} {directory : Path} :
    path ∈ (walk files (depth + 1) directory).enabled ↔
      ∃ names, files.readDirectory directory = .ok names ∧
        ((path ∈ (list files directory names).files ∧ path ∈ (classify path).enabled) ∨
          ∃ sub ∈ (list files directory names).directories,
            path ∈ (walk files depth sub).enabled) := by
  rw [walk]
  cases files.readDirectory directory with
  | error e => simp
  | ok names =>
    simp only [Discovered.mem_enabled_concat, List.mem_cons, List.mem_append, List.mem_map, mem_sorted]
    constructor
    · rintro ⟨found, (rfl | ⟨file, hfile, rfl⟩) | ⟨sub, hsub, rfl⟩, h⟩
      · cases h
      · obtain rfl := mem_enabled_classify h
        exact ⟨names, rfl, Or.inl ⟨hfile, h⟩⟩
      · exact ⟨names, rfl, Or.inr ⟨sub, hsub, h⟩⟩
    · rintro ⟨_, hnames, ⟨hfile, h⟩ | ⟨sub, hsub, h⟩⟩ <;> cases hnames
      · exact ⟨classify path, Or.inl (Or.inr ⟨path, hfile, rfl⟩), h⟩
      · exact ⟨walk files depth sub, Or.inr ⟨sub, hsub, rfl⟩, h⟩

theorem find_of_mem_walk : ∀ {depth : Nat} {directory : Path},
    path ∈ (walk files depth directory).scripts → ∃ found, files.find path = .ok found
  | 0, _, h => by cases h
  | depth + 1, directory, h => by
    rw [walk] at h
    cases hnames : files.readDirectory directory with
    | error e =>
      rw [hnames] at h
      cases h
    | ok names =>
      simp only [hnames, Discovered.mem_scripts_concat, List.mem_cons, List.mem_append,
        List.mem_map, mem_sorted] at h
      obtain ⟨found, (rfl | ⟨file, hfile, rfl⟩) | ⟨sub, -, rfl⟩, h⟩ := h
      · cases h
      · exact mem_scripts_classify h ▸ find_of_mem_files hfile
      · exact find_of_mem_walk h

end Discovery

/-- The scripts among the files of a directory are discovered. -/
theorem mem_enabled_discover {root : Path} {names : List String}
    (hnames : files.readDirectory root = .ok names)
    (hfile : path ∈ (Discovery.list files root names).files)
    (henabled : path ∈ (Discovery.classify path).enabled) :
    path ∈ (discover files root).enabled := by
  obtain ⟨at_, hfind⟩ : ∃ at_, files.find root = .ok (at_, .directory) := by
    unfold FileSystem.readDirectory at hnames
    split at hnames
    · cases hnames
    · next hfind => exact ⟨_, hfind⟩
    · cases hnames
  unfold discover
  rw [hfind]
  exact Discovery.mem_enabled_walk.2 ⟨names, hnames, Or.inl ⟨hfile, henabled⟩⟩

/-- Everything that is discovered leads somewhere. -/
theorem canonical_of_mem_scripts {root : Path} (h : path ∈ (discover files root).scripts) :
    ∃ file, files.canonical path = .ok file := by
  have hfind : ∃ found, files.find path = .ok found := by
    unfold discover at h
    split at h
    · exact Discovery.find_of_mem_walk h
    · next hfound =>
      rw [Discovery.mem_scripts_classify h]
      exact ⟨_, hfound⟩
    · cases h
  obtain ⟨found, hfound⟩ := hfind
  exact ⟨Path.ofNames found.1, by rw [FileSystem.canonical, hfound]; rfl⟩

theorem canonical_of_discovered {root : Path} (h : path ∈ (discover files root).enabled) :
    ∃ file, files.canonical path = .ok file :=
  canonical_of_mem_scripts (List.mem_append_left _ h)

end EventScripts
