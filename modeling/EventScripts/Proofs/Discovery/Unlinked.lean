import EventScripts.Proofs.Discovery.Order
/-!
# Searches without links

Without symbolic links, what a path leads to stands where its names say. So the
paths that a search finds and the paths that they resolve to differ only in what
is written for the directory itself, and resolving them leaves their order as it
is (`keyCompare_of_resolved`).
-/

namespace EventScripts

namespace FileSystem

/-- There are no symbolic links. -/
def Linkless (files : FileSystem) : Prop := ∀ e ∈ files.entries, ∀ target, e.2 ≠ .link target

variable {files : FileSystem} {at_ there : Location} {entry : Entry} {p : Path} {name : String}

theorem Linkless.entry?_ne (h : files.Linkless) (at_ : Location) (target : Path) :
    files.entry? at_ ≠ some (.link target) := by
  intro he
  by_cases hne : at_ = []
  · subst hne
    cases he
  · exact h _ (mem_entries_of_eq_some hne he) target rfl

theorem ProperNames.of_eq_some (h : files.ProperNames) (he : files.entry? at_ = some entry) :
    ∀ name ∈ at_, Path.Proper name := by
  by_cases hne : at_ = []
  · subst hne
    nofun
  · exact h _ (mem_entries_of_eq_some hne he)

/-- Without links an entry of a directory stands right below it. -/
theorem Opens.location_of_join {left : Nat} (h : files.Opens p left at_) (hl : files.Linkless)
    (hname : Path.Proper name) (hfind : files.find (p.join ⟨name⟩) = .ok (there, entry)) :
    there = at_ ++ [name] := by
  obtain ⟨-, front, hsteps, hleads⟩ := h.exists_way hname
  have hw := (find_eq_ok.1 hfind).2
  rw [hsteps, hleads.walk_append (Or.inl rfl), walk] at hw
  cases he : files.entry? (at_ ++ [name]) with
  | none =>
    rw [he] at hw
    cases hw
  | some standing =>
    rw [he] at hw
    cases standing with
    | directory =>
      simp only [walk, he] at hw
      cases hw
      rfl
    | file content =>
      cases hw
      rfl
    | link target => exact absurd he (hl.entry?_ne _ target)

end FileSystem

namespace Discovery

variable {files : FileSystem} {root directory path resolved : Path} {base : Location}

/-- A directory that a search gets to stands where its names say. -/
theorem Reaches.exists_names (hproper : files.ProperNames) (hl : files.Linkless)
    (hbase : files.find root = .ok (base, .directory)) (h : Reaches files root directory) :
    ∃ names, directory.components = root.components ++ names.map Component.name ∧
      files.find directory = .ok (base ++ names, .directory) := by
  induction h with
  | root => exact ⟨[], by simp, by simpa using hbase⟩
  | @enter directory name _ hholds _ hd ih =>
    obtain ⟨names, hcomponents, hfind⟩ := ih
    have hname := hholds.proper hproper
    obtain ⟨left, hopens⟩ := FileSystem.exists_opens hfind
    obtain ⟨there, hfind'⟩ := exists_find_of_isDirectory hd
    refine ⟨names ++ [name], ?_, ?_⟩
    · rw [Path.components_join hname, hcomponents]
      simp
    · rw [hfind', hopens.location_of_join hl hname hfind', List.append_assoc]

/-- A script that is found and the path that it resolves to end in the same names. -/
theorem ScriptBelow.exists_names (hproper : files.ProperNames) (hl : files.Linkless)
    (hbase : files.find root = .ok (base, .directory)) {dash : Bool}
    (h : ScriptBelow files root dash path) (hcanonical : files.canonical path = .ok resolved) :
    ∃ c rest, path.components = root.components ++ c :: rest ∧
      resolved.components = Path.fromRoot base ++ c :: rest := by
  obtain ⟨directory, name, rfl, hreaches, hholds, -, -, -, -⟩ := h
  have hname := hholds.proper hproper
  obtain ⟨names, hcomponents, hfind⟩ := hreaches.exists_names hproper hl hbase
  obtain ⟨left, hopens⟩ := FileSystem.exists_opens hfind
  obtain ⟨there, entry, hfind', rfl⟩ := FileSystem.canonical_eq_ok.1 hcanonical
  have hthere := hopens.location_of_join hl hname hfind'
  have hnames := hproper.of_eq_some (FileSystem.entry?_of_walk (FileSystem.find_eq_ok.1 hfind').2)
  have hsplit : (names ++ [name]).map Component.name ≠ [] := by simp
  obtain ⟨c, rest, hrest⟩ := List.exists_cons_of_ne_nil hsplit
  refine ⟨c, rest, ?_, ?_⟩
  · rw [← hrest, Path.components_join hname, hcomponents]
    simp
  · rw [← hrest, Path.components_ofNames hnames, hthere]
    simp [Path.fromRoot]

/-- **Resolving leaves the order as it is.** -/
theorem keyCompare_of_resolved (hproper : files.ProperNames) (hl : files.Linkless)
    (h : files.isDirectory root = true) {other resolvedOther : Path} {dash : Bool}
    (hpath : ScriptBelow files root dash path) (hother : ScriptBelow files root dash other)
    (hresolved : files.canonical path = .ok resolved)
    (hresolvedOther : files.canonical other = .ok resolvedOther) :
    Path.keyCompare resolved resolvedOther = Path.keyCompare path other := by
  obtain ⟨base, hbase⟩ := exists_find_of_isDirectory h
  obtain ⟨c, rest, hc, hc'⟩ := hpath.exists_names hproper hl hbase hresolved
  obtain ⟨d, more, hd, hd'⟩ := hother.exists_names hproper hl hbase hresolvedOther
  rw [Path.keyCompare_of_append hc hd, Path.keyCompare_of_append hc' hd']

end Discovery

end EventScripts
