import EventScripts.Loader.Basic
import EventScripts.Proofs.FileSystem.Resolution
import EventScripts.Proofs.Path.Key
/-!
# The paths of scripts in a changed file system

A script is known by the path that its file led to when it was loaded. Resolved
again, such a path should lead to itself, also when the file is gone; only
symbolic links lead it astray, and `scriptPath_same_iff` says which. Scripts
cannot swap places: if all the paths of some scripts are led to, then each leads
to itself (`same_of_covered`).
-/

namespace EventScripts.FileSystem

variable {files : FileSystem} {path resolved : Path} {names : List String}

theorem exists?_of_canonical (h : files.canonical path = .ok resolved) :
    files.exists? path = true := by
  unfold canonical at h
  unfold exists?
  cases hf : files.find path with
  | ok _ => rfl
  | error e =>
    rw [hf] at h
    cases h

theorem canonical_of_exists? (h : files.exists? path = true) :
    ∃ resolved, files.canonical path = .ok resolved := by
  unfold exists? at h
  unfold canonical
  cases hf : files.find path with
  | ok found => exact ⟨_, rfl⟩
  | error e =>
    rw [hf] at h
    cases h

theorem scriptPath_of_canonical (h : files.canonical path = .ok resolved) :
    files.scriptPath path = resolved := by
  rw [scriptPath, h]

/-- The directory of an absolute path is absolute. -/
theorem isAbsolute_parent {parent : Path} {name : String} (habs : path.isAbsolute = true)
    (hc : path.components = parent.components ++ [.name name]) : parent.isAbsolute = true := by
  rw [Path.isAbsolute_iff, hc] at habs
  rw [Path.isAbsolute_iff]
  cases hp : parent.components with
  | nil =>
    rw [hp] at habs
    cases habs
  | cons c cs => simpa [hp] using habs

/-- How an absolute path is resolved: it leads somewhere; or its directory does; or it stays. -/
theorem scriptPath_cases (files : FileSystem) (habs : path.isAbsolute = true) :
    files.canonical path = .ok (files.scriptPath path) ∨
    files.exists? path = false ∧ (path.fileName? = none ∧ files.scriptPath path = path ∨
      ∃ parent name, path.parent? = some parent ∧ Path.Proper name ∧
        path.components = parent.components ++ [.name name] ∧
        (files.exists? parent = false ∧ files.scriptPath path = path ∨
          ∃ directory, files.canonical parent = .ok directory ∧
            files.scriptPath path = directory.join ⟨name⟩)) := by
  cases he : files.exists? path with
  | true =>
    obtain ⟨resolved, hr⟩ := canonical_of_exists? he
    exact Or.inl (by rw [scriptPath_of_canonical hr, hr])
  | false =>
    refine Or.inr ⟨rfl, ?_⟩
    have herror : ∃ e, files.canonical path = .error e := by
      cases hc : files.canonical path with
      | error e => exact ⟨e, rfl⟩
      | ok resolved =>
        rw [exists?_of_canonical hc] at he
        cases he
    obtain ⟨e, herror⟩ := herror
    cases hn : path.fileName? with
    | none =>
      refine Or.inl ⟨rfl, ?_⟩
      rw [scriptPath, herror, hn]
      cases path.parent? <;> rfl
    | some name =>
      obtain ⟨parent, hp, hc⟩ := Path.exists_parent habs hn
      have hparent : parent.text.isEmpty = false := by
        have h := isAbsolute_parent habs hc
        rw [String.isEmpty_eq_false_iff]
        intro ht
        rw [Path.isAbsolute, ht] at h
        cases h
      refine Or.inr ⟨parent, name, hp,
        ⟨Path.ofPiece?_of_fileName? hn, Path.noSlash_of_fileName? hn⟩, hc, ?_⟩
      cases hd : files.canonical parent with
      | ok directory =>
        refine Or.inr ⟨directory, rfl, ?_⟩
        simp only [scriptPath, herror, hp, hn, hparent, Bool.false_eq_true, if_false, hd]
      | error e =>
        refine Or.inl ⟨?_, ?_⟩
        · rw [← Bool.not_eq_true]
          intro hex
          obtain ⟨directory, hok⟩ := canonical_of_exists? hex
          cases hd.symm.trans hok
        · simp only [scriptPath, herror, hp, hn, hparent, Bool.false_eq_true, if_false, hd]

/-- The directory of a path of names has all names but the last. -/
theorem components_parent {parent : Path} {name : String}
    (hc : path.components = Path.fromRoot names)
    (hp : path.components = parent.components ++ [.name name]) :
    names.dropLast ++ [name] = names ∧ parent.components = Path.fromRoot names.dropLast := by
  rw [hc] at hp
  rcases List.eq_nil_or_concat' names with rfl | ⟨front, last, rfl⟩
  · have hlast := congrArg List.getLast? hp
    simp [Path.fromRoot] at hlast
  · rw [Path.fromRoot_concat] at hp
    obtain ⟨hfront, hlast⟩ := List.append_inj' hp rfl
    rw [List.dropLast_concat, Component.name.inj (List.cons.inj hlast).1]
    exact ⟨rfl, hfront.symm⟩

theorem components_join {at_ : Location} {name : String} (h : files.Clear at_)
    (hname : Path.Proper name) :
    ((Path.ofNames at_).join ⟨name⟩).components = Path.fromRoot (at_ ++ [name]) :=
  Path.components_ofNames_join h.proper hname

/-- The path with the given names is not led elsewhere: there are no links on the way to it; or it
leads nowhere, and there are none on the way to its directory or that leads nowhere either. -/
def Direct (files : FileSystem) (path : Path) (names : List String) : Prop :=
  files.Unlinked names ∨ files.exists? path = false ∧ (files.Unlinked names.dropLast ∨
    ∀ parent, path.parent? = some parent → files.exists? parent = false)

/-- **When a path leads to itself.** -/
theorem scriptPath_same_iff (files : FileSystem) (hc : path.components = Path.fromRoot names) :
    (files.scriptPath path).same path = true ↔ files.Direct path names := by
  have habs := Path.isAbsolute_of_components hc
  rw [Path.same_iff]
  rcases scriptPath_cases files habs with
    hr | ⟨he, ⟨hn, hs⟩ | ⟨parent, name, hp, hname, hpc, hend⟩⟩
  · obtain ⟨at_, hclear, hs⟩ := exists_clear_of_canonical habs hr
    constructor
    · intro hsame
      rw [hs, Path.components_ofNames hclear.proper, hc, Path.fromRoot_inj] at hsame
      exact Or.inl (hsame ▸ hclear.unlinked)
    · rintro (hu | ⟨he, -⟩)
      · rw [canonical_of_unlinked hc hu hr, hc]
        exact Path.components_ofNames (Path.proper_of_components hc)
      · rw [exists?_of_canonical hr] at he
        cases he
  · -- only the root has no file name
    have hnil : names = [] := by
      rcases List.eq_nil_or_concat' names with h | ⟨front, last, rfl⟩
      · exact h
      · rw [Path.fromRoot_concat] at hc
        rw [Path.fileName?_eq_some.2 (by rw [hc, List.getLast?_concat])] at hn
        cases hn
    rw [hs, hnil]
    exact ⟨fun _ => Or.inl (clear_root files).unlinked, fun _ => rfl⟩
  · obtain ⟨hnames, hparent⟩ := components_parent hc hpc
    rcases hend with ⟨hnone, hs⟩ | ⟨directory, hd, hs⟩
    · rw [hs]
      refine ⟨fun _ => Or.inr ⟨he, Or.inr fun parent' hp' => ?_⟩, fun _ => rfl⟩
      rw [Option.some.inj (hp'.symm.trans hp)]
      exact hnone
    · rw [hs]
      constructor
      · intro hsame
        obtain ⟨at_, hclear, rfl⟩ :=
          exists_clear_of_canonical (Path.isAbsolute_of_components hparent) hd
        rw [components_join hclear hname, hc, Path.fromRoot_inj, ← hnames] at hsame
        have hat : at_ = names.dropLast := (List.append_inj' hsame rfl).1
        exact Or.inr ⟨he, Or.inl (hat ▸ hclear.unlinked)⟩
      · intro h
        have hu : files.Unlinked names.dropLast := by
          rcases h with hu | ⟨-, hu | hnone⟩
          · exact hu.prefix (List.dropLast_prefix names)
          · exact hu
          · have := hnone parent hp
            rw [exists?_of_canonical hd] at this
            cases this
        rw [canonical_of_unlinked hparent hu hd, hc,
          Path.components_ofNames_join (Path.proper_of_components hparent) hname, hnames]

/-! ## Scripts that lead to each other -/

/-- An absolute path stays, leads to a clear location, or is missing below one. -/
theorem scriptPath_clear (files : FileSystem) (habs : path.isAbsolute = true) :
    files.scriptPath path = path ∨ ∃ at_, files.Clear at_ ∧
      ((files.scriptPath path).components = Path.fromRoot at_ ∨
        ∃ name, (files.scriptPath path).components = Path.fromRoot (at_ ++ [name])) := by
  rcases scriptPath_cases files habs with
    hr | ⟨-, ⟨-, hs⟩ | ⟨parent, name, -, hname, hpc, ⟨-, hs⟩ | ⟨directory, hd, hs⟩⟩⟩
  · obtain ⟨at_, hclear, hs⟩ := exists_clear_of_canonical habs hr
    exact Or.inr ⟨at_, hclear, Or.inl (by rw [hs, Path.components_ofNames hclear.proper])⟩
  · exact Or.inl hs
  · exact Or.inl hs
  · obtain ⟨at_, hclear, rfl⟩ := exists_clear_of_canonical (isAbsolute_parent habs hpc) hd
    exact Or.inr ⟨at_, hclear, Or.inr ⟨name, by rw [hs, components_join hclear hname]⟩⟩

/-- Below a clear location, a path leads to itself or to a clear location. -/
theorem scriptPath_below {at_ : Location} {name : String} (hclear : files.Clear at_)
    (hc : path.components = Path.fromRoot (at_ ++ [name])) :
    (files.scriptPath path).components = path.components ∨
      ∃ above, files.Clear above ∧ (files.scriptPath path).components = Path.fromRoot above := by
  have habs := Path.isAbsolute_of_components hc
  cases he : files.exists? path with
  | true =>
    obtain ⟨resolved, hr⟩ := canonical_of_exists? he
    obtain ⟨above, habove, rfl⟩ := exists_clear_of_canonical habs hr
    refine Or.inr ⟨above, habove, ?_⟩
    rw [scriptPath_of_canonical hr, Path.components_ofNames habove.proper]
  | false =>
    have hu : files.Unlinked (at_ ++ [name]).dropLast := by
      rw [List.dropLast_concat]
      exact hclear.unlinked
    exact Or.inl (Path.same_iff.1 ((scriptPath_same_iff files hc).2 (Or.inr ⟨he, Or.inl hu⟩)))

/-- What a relative path leads to is not another relative path. -/
theorem scriptPath_eq_or_isAbsolute (files : FileSystem) (path : Path) :
    files.scriptPath path = path ∨ (files.scriptPath path).isAbsolute = true := by
  unfold scriptPath
  split
  · next resolved hr => exact Or.inr (isAbsolute_of_canonical hr)
  · split
    · split
      · next directory hd =>
        exact Or.inr (Path.isAbsolute_join (isAbsolute_of_canonical hd) _)
      · exact Or.inl rfl
    · exact Or.inl rfl

/-- **Paths that cover each other lead to themselves.** If each of some paths, told by their
components, is what one of them leads to, then it is what it leads to itself. -/
theorem same_of_covered {paths : List Path}
    (hapart : ∀ p ∈ paths, ∀ q ∈ paths, p.components = q.components → p = q)
    (hcovered : ∀ p ∈ paths, ∃ q ∈ paths, (files.scriptPath q).components = p.components) :
    ∀ p ∈ paths, (files.scriptPath p).components = p.components := by
  -- a relative path is led to by itself only
  have hrelative : ∀ p ∈ paths, p.isAbsolute = false →
      (files.scriptPath p).components = p.components := by
    intro p hp hrel
    obtain ⟨q, hq, hqp⟩ := hcovered p hp
    rcases scriptPath_eq_or_isAbsolute files q with hs | habs
    · rw [hs] at hqp
      obtain rfl := hapart q hq p hp hqp
      rw [hs]
    · rw [Path.isAbsolute_iff, hqp, ← Path.isAbsolute_iff, hrel] at habs
      cases habs
  -- so whatever leads to an absolute path is absolute
  have hbefore : ∀ p ∈ paths, p.isAbsolute = true → ∃ q ∈ paths, q.isAbsolute = true ∧
      (files.scriptPath q).components = p.components := by
    intro p hp habs
    obtain ⟨q, hq, hqp⟩ := hcovered p hp
    refine ⟨q, hq, ?_, hqp⟩
    cases hrel : q.isAbsolute with
    | true => rfl
    | false =>
      obtain rfl := hapart q hq p hp ((hrelative q hq hrel).symm.trans hqp)
      rw [hrel] at habs
      cases habs
  intro p hp
  cases habs : p.isAbsolute with
  | false => exact hrelative p hp habs
  | true =>
    obtain ⟨q, hq, hqabs, hqp⟩ := hbefore p hp habs
    obtain ⟨r, hr, hrabs, hrq⟩ := hbefore q hq hqabs
    -- it is enough that `q`, which leads to `p`, leads to itself or to a clear location
    suffices h : (files.scriptPath q).components = q.components ∨
        ∃ at_, files.Clear at_ ∧ (files.scriptPath q).components = Path.fromRoot at_ by
      rcases h with hself | ⟨at_, hclear, hat⟩
      · obtain rfl := hapart q hq p hp (hself.symm.trans hqp)
        exact hqp
      · exact Path.same_iff.1
          ((scriptPath_same_iff files (hqp.symm.trans hat)).2 (Or.inl hclear.unlinked))
    rcases scriptPath_clear files hrabs with hs | ⟨at_, hclear, hat | ⟨name, hat⟩⟩
    · rw [hs] at hrq
      obtain rfl := hapart r hr q hq hrq
      exact Or.inl (by rw [hs])
    · exact Or.inl (Path.same_iff.1
        ((scriptPath_same_iff files (hrq.symm.trans hat)).2 (Or.inl hclear.unlinked)))
    · exact scriptPath_below hclear (hrq.symm.trans hat)

end EventScripts.FileSystem
