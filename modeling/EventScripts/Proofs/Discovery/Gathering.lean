import EventScripts.Proofs.Discovery
import EventScripts.Proofs.FileSystem.Descent
/-!
# What a search gathers

A search picks something in each directory that it gets to: the files, and the
entries that lead nowhere (`walk_eq`). Directories are reached through names that
are not hidden, and each of them is searched (`mem_gather_iff`): the depth that a
search is given is more than it can use up.
-/

namespace EventScripts

/-- The name under which what stands at a location stands right below another. -/
def FileSystem.nameBelow? (at_ there : Location) : Option String :=
  there.getLast?.bind fun name => if there.dropLast = at_ then some name else none

theorem FileSystem.nameBelow?_eq_some {at_ there : Location} {name : String} :
    nameBelow? at_ there = some name ↔ there = at_ ++ [name] := by
  rw [nameBelow?, Option.bind_eq_some_iff]
  constructor
  · rintro ⟨last, hlast, h⟩
    obtain ⟨hfront, hname⟩ := Option.ite_none_right_eq_some.1 h
    cases hname
    rw [← hfront]
    exact (List.dropLast_append_getLast? name hlast).symm
  · rintro rfl
    simp

theorem FileSystem.namesBelow_eq (files : FileSystem) (at_ : Location) : files.namesBelow at_
    = (files.entries.filterMap fun e => nameBelow? at_ e.1).reverse := by
  refine congrArg List.reverse (congrArg (List.filterMap · files.entries) (funext fun e => ?_))
  obtain ⟨there, entry⟩ := e
  simp only [nameBelow?]
  cases there.getLast? <;> rfl

/-- A directory holds an entry of that name. -/
def FileSystem.Holds (files : FileSystem) (directory : Path) (name : String) : Prop :=
  ∃ names, files.readDirectory directory = .ok names ∧ name ∈ names

theorem FileSystem.Holds.proper {files : FileSystem} {directory : Path} {name : String}
    (hproper : files.ProperNames) (h : files.Holds directory name) : Path.Proper name := by
  obtain ⟨names, hnames, hname⟩ := h
  unfold readDirectory at hnames
  split at hnames
  · cases hnames
  · cases hnames
    rw [namesBelow_eq] at hname
    obtain ⟨e, he, hlast⟩ := List.mem_filterMap.1 (List.mem_reverse.1 hname)
    refine hproper e he name ?_
    rw [nameBelow?_eq_some.1 hlast]
    simp
  · cases hnames

namespace Discovery

/-- The name starts with a dot. -/
def Hidden (name : String) : Prop := name.toList.head? = some '.'

/-- The directories that a search gets to. -/
inductive Reaches (files : FileSystem) (root : Path) : Path → Prop
  | root : Reaches files root root
  | enter {directory : Path} {name : String} : Reaches files root directory →
    files.Holds directory name → ¬Hidden name → files.isDirectory (directory.join ⟨name⟩) = true →
    Reaches files root (directory.join ⟨name⟩)

/-- The entries that a search comes upon. -/
def Meets (files : FileSystem) (root path : Path) : Prop :=
  ∃ directory name, Reaches files root directory ∧ files.Holds directory name ∧ ¬Hidden name ∧
    path = directory.join ⟨name⟩

/-! ## The entries of one directory -/

/-- The paths of the entries of a directory, apart from hidden ones. -/
def entriesIn (files : FileSystem) (directory : Path) : List Path :=
  match files.readDirectory directory with
  | .ok names => (names.map fun name => directory.join ⟨name⟩).filter (!isHidden ·)
  | .error _ => []

variable {files : FileSystem} {directory root path : Path}

theorem exists_find_of_isDirectory (h : files.isDirectory path = true) :
    ∃ at_, files.find path = .ok (at_, .directory) := by
  unfold FileSystem.isDirectory at h
  split at h
  · next at_ hfind => exact ⟨at_, hfind⟩
  · cases h

/-- The files of a directory, in the order of their names. -/
def filesIn (files : FileSystem) (directory : Path) : List Path :=
  sorted ((entriesIn files directory).filter (isFile files))

/-- The subdirectories of a directory, in the order of their names. -/
def subdirectories (files : FileSystem) (directory : Path) : List Path :=
  sorted ((entriesIn files directory).filter files.isDirectory)

/-- The entries of a directory that lead nowhere. -/
def lostIn (files : FileSystem) (directory : Path) : List (Path × IoError) :=
  (entriesIn files directory).filterMap (lost? files)

theorem isHidden_join {name : String} (h : Path.Proper name) :
    isHidden (directory.join ⟨name⟩) = true ↔ Hidden name := by
  rw [isHidden, Path.fileName?_join h, Hidden]
  simp

theorem mem_entriesIn (hproper : files.ProperNames) : path ∈ entriesIn files directory ↔
    ∃ name, files.Holds directory name ∧ ¬Hidden name ∧ path = directory.join ⟨name⟩ := by
  unfold entriesIn
  cases hnames : files.readDirectory directory with
  | error e =>
    simp only [List.not_mem_nil, false_iff]
    rintro ⟨name, ⟨names, hnames', -⟩, -⟩
    cases hnames.symm.trans hnames'
  | ok names =>
    simp only [List.mem_filter, List.mem_map, Bool.not_eq_true', ← Bool.not_eq_true]
    constructor
    · rintro ⟨⟨name, hname, rfl⟩, hhidden⟩
      have hholds : files.Holds directory name := ⟨names, hnames, hname⟩
      exact ⟨name, hholds, (isHidden_join (hholds.proper hproper)).not.1 hhidden, rfl⟩
    · rintro ⟨name, hholds, hhidden, rfl⟩
      have hname : name ∈ names := by
        obtain ⟨names', hnames', hname⟩ := hholds
        cases hnames.symm.trans hnames'
        exact hname
      exact ⟨⟨name, hname, rfl⟩, (isHidden_join (hholds.proper hproper)).not.2 hhidden⟩

/-! ## All directories -/

variable {α : Type} {pick : Path → List α}

/-- What is picked in each directory, in the order in which they are searched. -/
def gather (files : FileSystem) (pick : Path → List α) : Nat → Path → List α
  | 0, _ => []
  | depth + 1, directory =>
    pick directory ++ (subdirectories files directory).flatMap (gather files pick depth)

/-- The path counts as a script. -/
def counts (path : Path) : Bool := !isHidden path && isScript path

theorem concat_eq (founds : List Discovered) : Discovered.concat founds =
    ⟨founds.flatMap (·.enabled), founds.flatMap (·.disabled), founds.flatMap (·.problems)⟩ := by
  have hfold : ∀ (founds : List Discovered) (start : Discovered),
      founds.foldl Discovered.append start = start.append
        ⟨founds.flatMap (·.enabled), founds.flatMap (·.disabled), founds.flatMap (·.problems)⟩ := by
    intro founds
    induction founds with
    | nil => exact fun start => by simp [Discovered.append]
    | cons found founds ih => exact fun start => by rw [List.foldl_cons, ih]; simp [Discovered.append]
  rw [Discovered.concat, hfold]
  simp [Discovered.append]

theorem classify_eq (path : Path) : classify path =
    { enabled := [path].filter fun p => counts p && !p.isDisabled
      disabled := [path].filter fun p => counts p && p.isDisabled } := by
  unfold classify counts
  cases hhidden : isHidden path <;> cases hscript : isScript path <;>
    cases hdisabled : path.isDisabled <;> simp [hhidden, hscript, hdisabled]

theorem flatMap_filter_singleton (q : Path → Bool) (paths : List Path) :
    (paths.flatMap fun p => [p].filter q) = paths.filter q := by
  rw [← List.filter_flatMap, List.flatMap_singleton']

theorem isDirectory_of_mem_subdirectories (h : path ∈ subdirectories files directory) :
    files.isDirectory path = true :=
  (List.mem_filter.1 (mem_sorted.1 h)).2

/-- **A search** gathers the files that count as scripts, and reports the entries that lead
nowhere. -/
theorem walk_eq : ∀ {depth : Nat} {directory : Path}, files.isDirectory directory = true →
    walk files depth directory =
      { enabled := (gather files (filesIn files) depth directory).filter fun p =>
          counts p && !p.isDisabled
        disabled := (gather files (filesIn files) depth directory).filter fun p =>
          counts p && p.isDisabled
        problems := (gather files (lostIn files) depth directory).map report }
  | 0, _, _ => rfl
  | depth + 1, directory, h => by
    obtain ⟨at_, hfind⟩ := exists_find_of_isDirectory h
    have hnames : files.readDirectory directory = .ok (files.namesBelow at_) := by
      rw [FileSystem.readDirectory, hfind]
    have hlisting : list files directory (files.namesBelow at_) = {
        files := (entriesIn files directory).filter (isFile files)
        directories := (entriesIn files directory).filter files.isDirectory
        problems := (lostIn files directory).map report } := by
      rw [list_eq, lostIn, entriesIn, hnames]
    have hsubs : (subdirectories files directory).map (walk files depth) = _ :=
      List.map_congr_left fun sub hsub => walk_eq (isDirectory_of_mem_subdirectories hsub)
    rw [walk, hnames]
    simp only
    rw [hlisting]
    simp only
    rw [← filesIn, ← subdirectories, hsubs, concat_eq]
    simp only [List.cons_append, List.flatMap_cons, List.flatMap_append, List.flatMap_map,
      classify_eq, flatMap_filter_singleton, gather, List.filter_append, List.filter_flatMap,
      List.map_append, List.map_flatMap, List.nil_append]
    simp

/-! ## The depth suffices -/

theorem mem_subdirectories (hproper : files.ProperNames) : path ∈ subdirectories files directory ↔
    ∃ name, files.Holds directory name ∧ ¬Hidden name ∧ path = directory.join ⟨name⟩ ∧
      files.isDirectory path = true := by
  rw [subdirectories, mem_sorted, List.mem_filter, mem_entriesIn hproper]
  constructor
  · rintro ⟨⟨name, hholds, hhidden, hpath⟩, hd⟩
    exact ⟨name, hholds, hhidden, hpath, hd⟩
  · rintro ⟨name, hholds, hhidden, hpath, hd⟩
    exact ⟨⟨name, hholds, hhidden, hpath⟩, hd⟩

theorem Reaches.trans {sub : Path} (h : Reaches files root directory)
    (hs : Reaches files directory sub) : Reaches files root sub := by
  induction hs with
  | root => exact h
  | enter _ hholds hhidden hd ih => exact ih.enter hholds hhidden hd

theorem reaches_of_mem_subdirectories (hproper : files.ProperNames)
    (h : path ∈ subdirectories files directory) : Reaches files directory path := by
  obtain ⟨name, hholds, hhidden, rfl, hd⟩ := (mem_subdirectories hproper).1 h
  exact .enter .root hholds hhidden hd

/-- What is reached is where the search starts, or is reached from a subdirectory of that. -/
theorem Reaches.cases_first (hproper : files.ProperNames) (h : Reaches files root directory) :
    directory = root ∨ ∃ sub ∈ subdirectories files root, Reaches files sub directory := by
  induction h with
  | root => exact .inl rfl
  | @enter directory name _ hholds hhidden hd ih =>
    refine .inr ?_
    rcases ih with rfl | ⟨sub, hsub, hreaches⟩
    · exact ⟨_, (mem_subdirectories hproper).2 ⟨name, hholds, hhidden, rfl, hd⟩, .root⟩
    · exact ⟨sub, hsub, hreaches.enter hholds hhidden hd⟩

/-- **Every directory that is reached is searched**, as long as there is as much depth as there may
be steps down. -/
theorem mem_gather (hproper : files.ProperNames) {x : α} : ∀ {depth left : Nat} {directory : Path}
    {at_ : Location}, files.Opens directory left at_ → files.reserve left at_ < depth →
    (x ∈ gather files pick depth directory ↔ ∃ sub, Reaches files directory sub ∧ x ∈ pick sub)
  | depth + 1, left, directory, at_, hopens, hdepth => by
    have hsub : ∀ sub ∈ subdirectories files directory, (x ∈ gather files pick depth sub ↔
        ∃ below, Reaches files sub below ∧ x ∈ pick below) := by
      intro sub hsub
      obtain ⟨name, hholds, -, rfl, hd⟩ := (mem_subdirectories hproper).1 hsub
      obtain ⟨there, hfind⟩ := exists_find_of_isDirectory hd
      obtain ⟨last, hopens', hless⟩ := hopens.exists_join (hholds.proper hproper) hfind
      exact mem_gather hproper hopens' (by omega)
    rw [gather, List.mem_append, List.mem_flatMap]
    constructor
    · rintro (hx | ⟨sub, hmem, hx⟩)
      · exact ⟨directory, .root, hx⟩
      · obtain ⟨below, hreaches, hpick⟩ := (hsub sub hmem).1 hx
        exact ⟨below, (reaches_of_mem_subdirectories hproper hmem).trans hreaches, hpick⟩
    · rintro ⟨below, hreaches, hpick⟩
      rcases hreaches.cases_first hproper with rfl | ⟨sub, hmem, hreaches⟩
      · exact .inl hpick
      · exact .inr ⟨sub, hmem, (hsub sub hmem).2 ⟨below, hreaches, hpick⟩⟩

theorem reserve_lt_maxDepth {left : Nat} {at_ : Location}
    (h : files.Opens root left at_) : files.reserve left at_ < maxDepth files := by
  have hless := Nat.mul_le_mul_right (files.entries.length + 1) h.leads.le
  have hbelow := files.countBelow_le at_
  rw [FileSystem.reserve, maxDepth, Nat.succ_mul]
  omega

/-- **What a search gathers** is what there is to pick in the directories that it gets to. -/
theorem mem_gather_iff (hproper : files.ProperNames) (h : files.isDirectory root = true) {x : α} :
    x ∈ gather files pick (maxDepth files) root ↔
      ∃ directory, Reaches files root directory ∧ x ∈ pick directory := by
  obtain ⟨at_, hfind⟩ := exists_find_of_isDirectory h
  obtain ⟨left, hopens⟩ := FileSystem.exists_opens hfind
  exact mem_gather hproper hopens (reserve_lt_maxDepth hopens)

end Discovery

/-- To search a directory is to walk through it. -/
theorem discover_of_directory {files : FileSystem} {root : Path} (h : files.isDirectory root = true) :
    discover files root = Discovery.walk files (Discovery.maxDepth files) root := by
  obtain ⟨at_, hfind⟩ := Discovery.exists_find_of_isDirectory h
  rw [discover, hfind]

end EventScripts
