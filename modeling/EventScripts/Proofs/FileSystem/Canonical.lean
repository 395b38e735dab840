import EventScripts.Proofs.FileSystem.Deletion
import EventScripts.Proofs.Loader.ScriptPath
import EventScripts.Proofs.Path.Marker
/-!
# Resolved paths

A path that has been resolved has no links left on the way to it, and so it
resolves to itself (`canonical_of_canonical`). What is resolved is there, and
so is the script of its marker or the marker itself, whichever it is
(`exists?_of_marker`).
-/

namespace EventScripts.FileSystem

/-! ## The way to a location -/

theorem stepsOfPieces_names : ∀ {names : List String}, (∀ name ∈ names, Path.Proper name) →
    stepsOfPieces (names.map String.toList) = names.map .down
  | [], _ => rfl
  | name :: names, h => by
    have ih := stepsOfPieces_names fun n hn => h n (List.mem_cons_of_mem _ hn)
    have hreads := (h name List.mem_cons_self).reads
    rw [List.map_cons, List.map_cons, ← ih]
    unfold Component.ofPiece? at hreads
    split at hreads
    · cases hreads
    · cases hreads
    · cases hreads
    · next hnil hdot hup =>
      rw [stepsOfPieces, String.ofList_toList]
      all_goals simp_all

theorem steps_ofNames {names : List String} (h : ∀ name ∈ names, Path.Proper name)
    (hne : names ≠ []) : steps (Path.ofNames names) = names.map .down := by
  have hpieces := Path.pieces_ofNames h hne
  have htext : (Path.ofNames names).text.toList.isEmpty = false := by
    cases hl : (Path.ofNames names).text.toList with
    | nil =>
      rw [hl] at hpieces
      simp [Path.piecesOf, Text.pieces, hne] at hpieces
    | cons => rfl
  rw [steps, htext, if_neg (by simp), hpieces, ← stepsOfPieces_names h]
  cases names with
  | nil => exact absurd rfl hne
  | cons name names => rw [List.map_cons, stepsOfPieces]; simp

variable {files : FileSystem} {p resolved : Path} {at_ : Location} {entry : Entry}

/-- Down along directories one gets to what stands below them. -/
theorem walk_down (hwf : files.WellFormed) {budget : Nat} (hlink : ∀ target, entry ≠ .link target) :
    ∀ {names here : Location}, files.entry? here = some .directory →
    files.entry? (here ++ names) = some entry →
    files.walk true budget (names.map .down) here = .ok (.found (here ++ names) entry)
  | [], here, _, he => by
    rw [List.append_nil] at he ⊢
    rw [List.map_nil, walk, he]
  | name :: rest, here, hd, he => by
    rw [List.append_cons] at he ⊢
    rw [List.map_cons, walk]
    cases rest with
    | nil =>
      rw [List.append_nil] at he ⊢
      rw [he]
      cases entry with
      | file content => rfl
      | directory => simp only [List.map_nil, walk, he]
      | link target => exact absurd rfl (hlink target)
    | cons next rest =>
      have hdown : files.entry? (here ++ [name]) = some .directory :=
        hwf.directory_of_prefix (List.prefix_append _ (next :: rest)) (by simp)
          (by rw [he]; exact Option.some_ne_none entry)
      simp only [hdown]
      exact walk_down hwf hlink hdown he

/-- **What stands at a location** is found there. -/
theorem find_ofNames (hwf : files.WellFormed) (hproper : ∀ name ∈ at_, Path.Proper name)
    (he : files.entry? at_ = some entry) (hlink : ∀ target, entry ≠ .link target) :
    files.find (Path.ofNames at_) = .ok (at_, entry) := by
  have hnonempty : (Path.ofNames at_).text.isEmpty = false := by
    have habs := Path.isAbsolute_ofNames at_
    rw [String.isEmpty_eq_false_iff]
    intro ht
    rw [Path.isAbsolute, ht] at habs
    cases habs
  refine find_eq_ok.2 ⟨hnonempty, ?_⟩
  rw [Path.isAbsolute_ofNames, if_pos rfl]
  by_cases hne : at_ = []
  · subst hne
    have hsteps : steps (Path.ofNames []) = [.stay] := by decide +kernel
    rw [hsteps, walk, walk, he]
  · rw [steps_ofNames hproper hne]
    exact walk_down hwf hlink rfl he

/-! ## Resolving again -/

/-- What a path leads to is a clear location, and no link stands there. -/
theorem find_spec (hwf : files.WellFormed) (h : files.find p = .ok (at_, entry)) :
    files.Clear at_ ∧ files.entry? at_ = some entry ∧ ∀ target, entry ≠ .link target := by
  obtain ⟨-, hw⟩ := find_eq_ok.1 h
  have hclear := clear_walk (hwf.start p).2 (fun _ hn => proper_of_mem_steps hn) hw
  have he := entry?_of_walk hw
  refine ⟨hclear, he, ?_⟩
  rintro target rfl
  exact hclear.unlinked at_ (List.prefix_refl at_) target he

theorem canonical_eq_ok : files.canonical p = .ok resolved ↔
    ∃ at_ entry, files.find p = .ok (at_, entry) ∧ resolved = Path.ofNames at_ := by
  unfold canonical
  cases files.find p with
  | error e => simp [Except.map]
  | ok found =>
    obtain ⟨at_, entry⟩ := found
    simp [Except.map, eq_comm]

/-- **A resolved path resolves to itself.** -/
theorem canonical_of_canonical (hwf : files.WellFormed) (h : files.canonical p = .ok resolved) :
    files.canonical resolved = .ok resolved := by
  obtain ⟨at_, entry, hfind, rfl⟩ := canonical_eq_ok.1 h
  obtain ⟨hclear, he, hlink⟩ := find_spec hwf hfind
  exact canonical_eq_ok.2 ⟨at_, entry, find_ofNames hwf hclear.proper he hlink, rfl⟩

/-- A file that is read is resolved, and is read by the resolved path as well. -/
theorem exists_canonical_of_readText {text : String} (hwf : files.WellFormed)
    (h : files.readText p = .ok text) :
    ∃ resolved, files.canonical p = .ok resolved ∧ files.readText resolved = .ok text := by
  cases hfind : files.find p with
  | error e =>
    rw [readText, hfind] at h
    cases h
  | ok found =>
    obtain ⟨at_, entry⟩ := found
    obtain ⟨hclear, he, hlink⟩ := find_spec hwf hfind
    refine ⟨Path.ofNames at_, canonical_eq_ok.2 ⟨at_, entry, hfind, rfl⟩, ?_⟩
    rw [readText, hfind] at h
    rw [readText, find_ofNames hwf hclear.proper he hlink]
    exact h

/-! ## Markers -/

/-- The script of the marker of a location, unless that is a marker itself. -/
theorem enabled_disabled_ofNames (hproper : ∀ name ∈ at_, Path.Proper name)
    (hd : (Path.ofNames at_).isDisabled = false) :
    (Path.ofNames at_).disabled.enabled = Path.ofNames at_ := by
  rcases List.eq_nil_or_concat' at_ with rfl | ⟨front, name, rfl⟩
  · rfl
  · have hname := Path.fileName?_ofNames hproper
    have hlast := hproper name (by simp)
    have hdash : Path.Proper ("-" ++ name) := by
      constructor
      case reads => rw [Path.toList_dash, Path.ofPiece?_dash, ← Path.toList_dash, String.ofList_toList]
      case noSlash =>
        rw [Path.toList_dash, Path.noSlash_dash]
        exact hlast.noSlash
    have hmarker : (Path.ofNames (front ++ [name])).disabled
        = Path.ofNames (front ++ ["-" ++ name]) := by
      have hhead : (name.toList.head? == some '-') = false := by
        simpa [Path.isDisabled, hname] using hd
      rw [Path.disabled, hname]
      simp only [hhead, Bool.false_eq_true, if_false]
      exact Path.withFileName_ofNames hproper hdash.noSlash
    have hproper' : ∀ n ∈ front ++ ["-" ++ name], Path.Proper n := by
      intro n hn
      rcases List.mem_append.1 hn with hn | hn
      · exact hproper n (by simp [hn])
      · exact List.mem_singleton.1 hn ▸ hdash
    rw [hmarker, Path.enabled, Path.fileName?_ofNames hproper']
    simp only [Path.toList_dash, String.ofList_toList]
    exact Path.withFileName_ofNames hproper' hlast.noSlash

/-- **A resolved path is there** as the marker or as the script of its marker. -/
theorem exists?_of_marker (hwf : files.WellFormed) (h : files.canonical p = .ok resolved) :
    (files.exists? resolved.disabled || files.exists? resolved.disabled.enabled) = true := by
  have hexists := exists?_of_canonical (canonical_of_canonical hwf h)
  obtain ⟨at_, entry, hfind, rfl⟩ := canonical_eq_ok.1 h
  cases hd : (Path.ofNames at_).isDisabled with
  | true => rw [Path.disabled_of_isDisabled hd, hexists, Bool.true_or]
  | false =>
    rw [enabled_disabled_ofNames (find_spec hwf hfind).1.proper hd, hexists, Bool.or_true]

end EventScripts.FileSystem
