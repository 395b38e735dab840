import EventScripts.Proofs.Discovery.Gathering
import EventScripts.Proofs.Ordered
import EventScripts.Proofs.Path.Hierarchy
/-!
# The order of a search

In each directory a search takes the files in the order of their names, and after
them the subdirectories in the order of theirs; scripts are listed directory by
directory, and files first. It is the same order (`pairwise_gather`), whatever
the names are, because names are compared alone and not as parts of a path.

`SPEC_FULL.md` §4.1 has the order and what is skipped.
-/

namespace EventScripts

/-- No two entries of a directory have the same name. -/
theorem FileSystem.nodup_namesBelow (files : FileSystem) (at_ : Location) :
    (files.namesBelow at_).Nodup := by
  have hlocations : files.entries.Pairwise fun e f => e.1 ≠ f.1 := List.pairwise_map.1 files.distinct
  rw [namesBelow_eq]
  refine List.pairwise_reverse.2 (List.pairwise_filterMap.2 (hlocations.imp ?_))
  intro e f hne name hname name' hname' heq
  rw [heq] at hname'
  exact hne ((nameBelow?_eq_some.1 hname).trans (nameBelow?_eq_some.1 hname').symm)

namespace Discovery

instance : Std.TransCmp Path.compareComponents :=
  inferInstanceAs <| Std.TransCmp <| compareOn Path.components

variable {files : FileSystem} {directory root path : Path}

/-! ## One directory -/

theorem in_of_mem_entriesIn (hproper : files.ProperNames) (h : path ∈ entriesIn files directory) :
    path.In directory := by
  obtain ⟨name, hholds, -, rfl⟩ := (mem_entriesIn hproper).1 h
  exact ⟨_, Path.components_join (hholds.proper hproper)⟩

/-- The entries of a directory differ. -/
theorem pairwise_entriesIn (hproper : files.ProperNames) (directory : Path) :
    (entriesIn files directory).Pairwise fun a b => a.components ≠ b.components := by
  unfold entriesIn
  cases hnames : files.readDirectory directory with
  | error e => exact List.Pairwise.nil
  | ok names =>
    have hnodup : names.Nodup := by
      unfold FileSystem.readDirectory at hnames
      split at hnames <;> cases hnames
      exact files.nodup_namesBelow _
    refine List.Pairwise.filter _ (List.pairwise_map.2 (hnodup.imp_of_mem ?_))
    intro a b ha hb hne heq
    have hholds : ∀ name ∈ names, files.Holds directory name := fun name hn => ⟨names, hnames, hn⟩
    rw [Path.components_join ((hholds a ha).proper hproper),
      Path.components_join ((hholds b hb).proper hproper)] at heq
    exact hne (Component.name.inj (List.cons.inj (List.append_inj' heq rfl).2).1)

/-- One path comes before another in a directory. -/
def Before (directory a b : Path) : Prop := ∃ c d, a.components = directory.components ++ [c] ∧
  b.components = directory.components ++ [d] ∧ compare c d = .lt

/-- What is sorted comes in the order of the names. -/
theorem pairwise_sorted {paths : List Path} (hin : ∀ p ∈ paths, p.In directory)
    (hne : paths.Pairwise fun a b => a.components ≠ b.components) :
    (sorted paths).Pairwise (Before directory) := by
  have htotal : ∀ a b : Path, ((Path.compareComponents a b).isLE ||
      (Path.compareComponents b a).isLE) = true := by
    intro a b
    have hswap : Path.compareComponents b a = (Path.compareComponents a b).swap :=
      Std.OrientedCmp.eq_swap
    rw [hswap]
    cases Path.compareComponents a b <;> rfl
  have hsorted : (sorted paths).Pairwise fun a b => (Path.compareComponents a b).isLE = true :=
    List.pairwise_mergeSort (fun _ _ _ => Std.TransCmp.isLE_trans) htotal paths
  have hne' : (sorted paths).Pairwise fun a b => a.components ≠ b.components :=
    ((List.mergeSort_perm paths _).pairwise_iff Ne.symm).2 hne
  refine (hsorted.and hne').imp_of_mem fun {a b} ha hb ⟨hle, hne⟩ => ?_
  obtain ⟨c, hc⟩ := hin a (mem_sorted.1 ha)
  obtain ⟨d, hd⟩ := hin b (mem_sorted.1 hb)
  refine ⟨c, d, hc, hd, ?_⟩
  have hcompare : Path.compareComponents a b = compare c d := by
    rw [Path.compareComponents, hc, hd, Path.compare_append_left, List.compare_cons_cons,
      List.compare_nil_nil]
    exact Ordering.then_eq
  rw [hcompare] at hle
  cases hcd : compare c d with
  | lt => rfl
  | eq => exact absurd (by rw [hc, hd, Std.compare_eq_iff_eq.1 hcd]) hne
  | gt =>
    rw [hcd] at hle
    cases hle

/-- The files of a directory come in the order in which they are listed. -/
theorem Before.keyCompare {a b : Path} (h : Before directory a b) : Path.keyCompare a b = .lt := by
  obtain ⟨c, d, hc, hd, hlt⟩ := h
  rw [Path.keyCompare_of_files hc hd, hlt]

theorem pairwise_filesIn (hproper : files.ProperNames) (directory : Path) :
    (filesIn files directory).Pairwise fun a b => Path.keyCompare a b = .lt :=
  (pairwise_sorted (fun _ hp => in_of_mem_entriesIn hproper (List.mem_filter.1 hp).1)
    ((pairwise_entriesIn hproper directory).filter _)).imp Before.keyCompare

theorem pairwise_subdirectories (hproper : files.ProperNames) (directory : Path) :
    (subdirectories files directory).Pairwise (Before directory) :=
  pairwise_sorted (fun _ hp => in_of_mem_entriesIn hproper (List.mem_filter.1 hp).1)
    ((pairwise_entriesIn hproper directory).filter _)

theorem in_of_mem_subdirectories (hproper : files.ProperNames)
    (h : path ∈ subdirectories files directory) : path.In directory :=
  in_of_mem_entriesIn hproper (List.mem_filter.1 (mem_sorted.1 h)).1

theorem lost?_eq_some {lost : Path × IoError} : lost? files path = some lost ↔
    lost.1 = path ∧ files.find path = .error lost.2 := by
  unfold lost?
  cases hfind : files.find path with
  | ok found => simp
  | error e =>
    obtain ⟨p, e'⟩ := lost
    simp [eq_comm]

theorem mem_lostIn {lost : Path × IoError} : lost ∈ lostIn files directory ↔
    lost.1 ∈ entriesIn files directory ∧ files.find lost.1 = .error lost.2 := by
  rw [lostIn, List.mem_filterMap]
  constructor
  · rintro ⟨p, hp, hlost⟩
    obtain ⟨rfl, hfind⟩ := lost?_eq_some.1 hlost
    exact ⟨hp, hfind⟩
  · rintro ⟨hp, hfind⟩
    exact ⟨lost.1, hp, lost?_eq_some.2 ⟨rfl, hfind⟩⟩

theorem pairwise_lostIn (hproper : files.ProperNames) (directory : Path) :
    (lostIn files directory).Pairwise fun a b => a.1.components ≠ b.1.components := by
  refine List.pairwise_filterMap.2 ((pairwise_entriesIn hproper directory).imp ?_)
  intro p q hne a ha b hb
  rw [(lost?_eq_some.1 ha).1, (lost?_eq_some.1 hb).1]
  exact hne

/-! ## All directories -/

section

variable {α : Type} {pick : Path → List α} {R : α → α → Prop}

/-- What is gathered lies below where the search starts. -/
theorem below_of_mem_gather {place : α → Path} (hproper : files.ProperNames)
    (hin : ∀ directory, ∀ x ∈ pick directory, (place x).In directory) {x : α} :
    ∀ {depth : Nat} {directory : Path}, x ∈ gather files pick depth directory →
      (place x).Below directory
  | 0, _, h => by cases h
  | depth + 1, directory, h => by
    rcases List.mem_append.1 h with h | h
    · exact (hin directory x h).below
    · obtain ⟨sub, hsub, hx⟩ := List.mem_flatMap.1 h
      exact (below_of_mem_gather hproper hin hx).trans
        (in_of_mem_subdirectories hproper hsub).below

/-- **What is gathered comes in the order of keys** if what is picked in each directory does. -/
theorem pairwise_gather (place : α → Path) (hproper : files.ProperNames)
    (hin : ∀ directory, ∀ x ∈ pick directory, (place x).In directory)
    (hR : ∀ x y, Path.keyCompare (place x) (place y) = .lt → R x y)
    (hpick : ∀ directory, (pick directory).Pairwise R) :
    ∀ (depth : Nat) (directory : Path), (gather files pick depth directory).Pairwise R
  | 0, _ => List.Pairwise.nil
  | depth + 1, directory => by
    rw [gather, List.pairwise_append, List.pairwise_flatMap]
    refine ⟨hpick directory, ⟨fun sub _ => pairwise_gather place hproper hin hR hpick depth sub, ?_⟩, ?_⟩
    · refine (pairwise_subdirectories hproper directory).imp ?_
      rintro sub sub' ⟨c, d, hc, hd, hlt⟩ x hx y hy
      obtain ⟨e, rest, he⟩ := below_of_mem_gather hproper hin hx
      obtain ⟨f, more, hf⟩ := below_of_mem_gather hproper hin hy
      rw [hc, List.append_assoc] at he
      rw [hd, List.append_assoc] at hf
      exact hR x y (Path.keyCompare_of_inner he hf hlt)
    · intro x hx y hy
      obtain ⟨sub, hsub, hy⟩ := List.mem_flatMap.1 hy
      obtain ⟨c, hc⟩ := hin directory x hx
      obtain ⟨d, hd⟩ := in_of_mem_subdirectories hproper hsub
      obtain ⟨e, rest, he⟩ := below_of_mem_gather hproper hin hy
      rw [hd, List.append_assoc] at he
      exact hR x y (Path.keyCompare_of_file hc he)

end

/-! ## What a search comes up with -/

/-- A script file below a directory that a search gets to, disabled or not. -/
def ScriptBelow (files : FileSystem) (root : Path) (dash : Bool) (path : Path) : Prop :=
  ∃ directory name, path = directory.join ⟨name⟩ ∧ Reaches files root directory ∧
    files.Holds directory name ∧ ¬Hidden name ∧ Path.extensionOf? name = some scriptExtension ∧
    (name.toList.head? == some '-') = dash ∧
    ∃ at_ entry, files.find path = .ok (at_, entry) ∧ entry ≠ .directory

/-- What has been found is what there is: the scripts, each list in the order of keys, and one
report of each entry that leads nowhere. -/
structure Complete (files : FileSystem) (root : Path) (found : Discovered) : Prop where
  enabled_iff : ∀ path, path ∈ found.enabled ↔ ScriptBelow files root false path
  disabled_iff : ∀ path, path ∈ found.disabled ↔ ScriptBelow files root true path
  enabled_sorted : Ordered.Sorted Path.keyCompare found.enabled
  disabled_sorted : Ordered.Sorted Path.keyCompare found.disabled
  problems_iff : ∀ problem, problem ∈ found.problems ↔
    ∃ path e, problem = .unreadable path e ∧ Meets files root path ∧ files.find path = .error e
  problems_nodup : found.problems.Nodup

theorem isScript_join {name : String} (h : Path.Proper name) :
    isScript (directory.join ⟨name⟩) = true ↔ Path.extensionOf? name = some scriptExtension := by
  rw [isScript, Path.extension?, Path.fileName?_join h, Option.bind_some, beq_iff_eq]

theorem isDisabled_join {name : String} (h : Path.Proper name) :
    (directory.join ⟨name⟩).isDisabled = (name.toList.head? == some '-') := by
  rw [Path.isDisabled, Path.fileName?_join h]
  rfl

theorem mem_filesIn : path ∈ filesIn files directory ↔
    path ∈ entriesIn files directory ∧ isFile files path = true := by
  rw [filesIn, mem_sorted, List.mem_filter]

theorem scriptBelow_iff (hproper : files.ProperNames) (h : files.isDirectory root = true)
    {dash : Bool} : ScriptBelow files root dash path ↔
      path ∈ gather files (filesIn files) (maxDepth files) root ∧ counts path = true ∧
        path.isDisabled = dash := by
  rw [mem_gather_iff hproper h]
  constructor
  · rintro ⟨directory, name, rfl, hreaches, hholds, hhidden, hext, hdash, hfile⟩
    have hname := hholds.proper hproper
    refine ⟨⟨directory, hreaches, mem_filesIn.2 ⟨?_, isFile_iff.2 hfile⟩⟩, ?_, ?_⟩
    · exact (mem_entriesIn hproper).2 ⟨name, hholds, hhidden, rfl⟩
    · rw [counts, (isScript_join hname).2 hext, Bool.and_true, Bool.not_eq_true',
        ← Bool.not_eq_true, isHidden_join hname]
      exact hhidden
    · rw [isDisabled_join hname, hdash]
  · rintro ⟨⟨directory, hreaches, hmem⟩, hcounts, hdash⟩
    obtain ⟨hentry, hfile⟩ := mem_filesIn.1 hmem
    obtain ⟨name, hholds, hhidden, rfl⟩ := (mem_entriesIn hproper).1 hentry
    have hname := hholds.proper hproper
    obtain ⟨-, hscript⟩ := Bool.and_eq_true_iff.1 hcounts
    exact ⟨directory, name, rfl, hreaches, hholds, hhidden, (isScript_join hname).1 hscript,
      (isDisabled_join hname).symm.trans hdash, isFile_iff.1 hfile⟩

/-- **The search of a directory** is complete, and in the order of keys. -/
theorem complete_discover (hproper : files.ProperNames) (h : files.isDirectory root = true) :
    Complete files root (discover files root) := by
  have hfiles : Ordered.Sorted Path.keyCompare
      (gather files (filesIn files) (maxDepth files) root) := by
    refine pairwise_gather id hproper (fun directory p hp => ?_) (fun _ _ hlt => hlt)
      (pairwise_filesIn hproper) (maxDepth files) root
    exact in_of_mem_entriesIn hproper (mem_filesIn.1 hp).1
  have hlost : (gather files (lostIn files) (maxDepth files) root).Pairwise
      fun a b => a.1.components ≠ b.1.components := by
    refine pairwise_gather Prod.fst hproper (fun directory lost hl => ?_) (fun a b hlt => ?_)
      (pairwise_lostIn hproper) (maxDepth files) root
    · exact in_of_mem_entriesIn hproper (mem_lostIn.1 hl).1
    · intro hsame
      cases hlt.symm.trans (Path.keyCompare_eq_iff.2 hsame)
  rw [discover_of_directory h, walk_eq h]
  constructor
  case enabled_iff =>
    intro path
    rw [scriptBelow_iff hproper h, List.mem_filter, Bool.and_eq_true, Bool.not_eq_true']
  case disabled_iff =>
    intro path
    rw [scriptBelow_iff hproper h, List.mem_filter, Bool.and_eq_true]
  case enabled_sorted => exact hfiles.filter _
  case disabled_sorted => exact hfiles.filter _
  case problems_iff =>
    intro problem
    rw [List.mem_map]
    constructor
    · rintro ⟨lost, hmem, rfl⟩
      obtain ⟨directory, hreaches, hmem⟩ := (mem_gather_iff hproper h).1 hmem
      obtain ⟨hentry, hfind⟩ := mem_lostIn.1 hmem
      obtain ⟨name, hholds, hhidden, hpath⟩ := (mem_entriesIn hproper).1 hentry
      exact ⟨lost.1, lost.2, rfl, ⟨directory, name, hreaches, hholds, hhidden, hpath⟩, hfind⟩
    · rintro ⟨path, e, rfl, ⟨directory, name, hreaches, hholds, hhidden, hpath⟩, hfind⟩
      refine ⟨(path, e), (mem_gather_iff hproper h).2 ⟨directory, hreaches, ?_⟩, rfl⟩
      exact mem_lostIn.2 ⟨(mem_entriesIn hproper).2 ⟨name, hholds, hhidden, hpath⟩, hfind⟩
  case problems_nodup =>
    refine List.pairwise_map.2 (hlost.imp fun {a b} hne heq => hne ?_)
    rw [(Problem.unreadable.inj heq).1]

end Discovery

end EventScripts
