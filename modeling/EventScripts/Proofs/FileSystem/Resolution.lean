import EventScripts.FileSystem.Access
import EventScripts.Proofs.Path.Names
/-!
# Where paths lead

A location is clear when no symbolic link stands on the way to it. Following
links, a resolution that starts at a clear location ends at one (`clear_walk`),
and along names on which there is no link it ends where the names say
(`walk_unlinked`). So what an absolute path leads to is a path without links,
and an absolute path without links leads to itself or nowhere.
-/

namespace EventScripts.FileSystem

/-! ## Steps -/

/-- The component that a step comes from; staying comes from none. -/
def Step.component? : Step → Option Component
  | stay => none
  | up => some .up
  | down name => some (.name name)

/-- The steps of a path are its components, apart from where it starts. -/
theorem filterMap_stepsOfPieces (parts : List (List Char)) :
    (stepsOfPieces parts).filterMap Step.component? = parts.filterMap Component.ofPiece? := by
  fun_induction stepsOfPieces parts with
  | case1 | case2 => rfl
  | case3 rest _ ih => exact ih
  | case4 rest ih => exact ih
  | case5 rest ih => exact congrArg (Component.up :: ·) ih
  | case6 name rest _ hnil hdot hup ih =>
    have hname : Component.ofPiece? name = some (.name (String.ofList name)) := by
      unfold Component.ofPiece?
      split
      · exact absurd rfl hnil
      · exact absurd rfl hdot
      · exact absurd rfl hup
      · rfl
    rw [List.filterMap_cons_some hname, ← ih]
    rfl

/-- The way down that the steps of an absolute path of names take. -/
theorem filterMap_steps {path : Path} {names : List String}
    (h : path.components = Path.fromRoot names) :
    (steps path).filterMap Step.component? = names.map .name := by
  obtain ⟨rest, hrest, hp, hc⟩ := Path.pieces_of_isAbsolute (Path.isAbsolute_of_components h)
  have htext : path.text.toList.isEmpty = false := by
    cases ht : path.text.toList with
    | nil =>
      rw [ht] at hp
      exact absurd (List.cons.inj hp).2.symm hrest
    | cons => rfl
  rw [steps, htext, if_neg (by simp), filterMap_stepsOfPieces, hp]
  exact (List.cons.inj (hc.symm.trans h)).2

theorem proper_of_mem_steps {path : Path} {name : String} (h : Step.down name ∈ steps path) :
    Path.Proper name := by
  unfold steps at h
  split at h
  · cases h
  · have hmem : Component.name name
        ∈ (stepsOfPieces (Path.piecesOf path.text.toList)).filterMap Step.component? :=
      List.mem_filterMap.2 ⟨_, h, rfl⟩
    rw [filterMap_stepsOfPieces] at hmem
    obtain ⟨part, hpart, hreads⟩ := List.mem_filterMap.1 hmem
    exact Path.proper_of_mem_pieces hpart hreads

/-! ## Links on the way -/

/-- No symbolic link stands at the location or at one above it. -/
def Unlinked (files : FileSystem) (at_ : Location) : Prop :=
  ∀ front, front <+: at_ → ∀ target, files.entry? front ≠ some (.link target)

/-- A location that a path can name, with no link on the way to it. -/
structure Clear (files : FileSystem) (at_ : Location) : Prop where
  unlinked : files.Unlinked at_
  proper : ∀ name ∈ at_, Path.Proper name

variable {files : FileSystem} {here at_ : Location}

theorem clear_root (files : FileSystem) : files.Clear [] where
  unlinked front h target he := by
    rw [List.prefix_nil.1 h] at he
    cases he
  proper := nofun

theorem Unlinked.prefix {front : Location} (h : files.Unlinked at_) (hf : front <+: at_) :
    files.Unlinked front :=
  fun above ha => h above (ha.trans hf)

theorem Clear.dropLast (h : files.Clear at_) : files.Clear at_.dropLast where
  unlinked := h.unlinked.prefix (List.dropLast_prefix at_)
  proper name hname := h.proper name (List.dropLast_subset at_ hname)

theorem Clear.concat {name : String} (h : files.Clear here) (hname : Path.Proper name)
    (he : ∀ target, files.entry? (here ++ [name]) ≠ some (.link target)) :
    files.Clear (here ++ [name]) where
  unlinked front hf := by
    rcases List.prefix_concat_iff.1 hf with rfl | hf
    · exact he
    · exact h.unlinked front hf
  proper n hn := by
    rcases List.mem_append.1 hn with hn | hn
    · exact h.proper n hn
    · rw [List.mem_singleton.1 hn]
      exact hname

/-! ## Walking -/

theorem entry?_ne_link {name : String} {entry : Entry}
    (he : files.entry? (here ++ [name]) = some entry) (hne : ∀ target, entry ≠ .link target) :
    ∀ target, files.entry? (here ++ [name]) ≠ some (.link target) := by
  intro target ht
  exact hne target (Option.some.inj (he.symm.trans ht))

/-- **A resolution ends at a clear location** if it starts at one. -/
theorem clear_walk {budget : Nat} {path : List Step} {entry : Entry} (h : files.Clear here)
    (hsteps : ∀ name, Step.down name ∈ path → Path.Proper name)
    (hw : files.walk true budget path here = .ok (.found at_ entry)) : files.Clear at_ := by
  fun_induction walk files true budget path here with
  | case1 _ here found =>
    cases hw
    exact h
  | case3 budget rest here ih =>
    exact ih h (fun name hn => hsteps name (List.mem_cons_of_mem _ hn)) hw
  | case4 budget rest here ih =>
    exact ih h.dropLast (fun name hn => hsteps name (List.mem_cons_of_mem _ hn)) hw
  | case7 budget name rest here he ih =>
    have hdown := h.concat (hsteps name List.mem_cons_self) (entry?_ne_link he nofun)
    exact ih hdown (fun n hn => hsteps n (List.mem_cons_of_mem _ hn)) hw
  | case8 budget name rest here content he =>
    cases hw
    exact h.concat (hsteps name List.mem_cons_self) (entry?_ne_link he nofun)
  | case10 budget name rest here target he hlast => simp at hlast
  | case12 name rest here target he _ budget ih =>
    -- the target is followed from the root or from where the link stands
    have hstart : files.Clear (if target.isAbsolute = true then [] else here) := by
      split
      · exact clear_root files
      · exact h
    refine ih hstart (fun n hn => ?_) hw
    rcases List.mem_append.1 hn with hn | hn
    · exact proper_of_mem_steps hn
    · exact hsteps n (List.mem_cons_of_mem _ hn)
  | case2 | case5 | case6 | case9 | case11 => cases hw

/-- Along names on which there is no link, a resolution ends where the names say. -/
theorem walk_unlinked {follow : Bool} {entry : Entry} : ∀ {path : List Step} {budget : Nat}
    {here names : Location}, path.filterMap Step.component? = names.map .name →
    files.Unlinked (here ++ names) →
    files.walk follow budget path here = .ok (.found at_ entry) → at_ = here ++ names
  | [], budget, here, names, hnames, _, hw => by
    have hnil : names = [] := List.map_eq_nil_iff.1 hnames.symm
    rw [walk] at hw
    split at hw
    · cases hw
      rw [hnil, List.append_nil]
    · cases hw
  | .stay :: rest, budget, here, names, hnames, hu, hw => by
    have hrest : rest.filterMap Step.component? = names.map .name := hnames
    rw [walk] at hw
    exact walk_unlinked hrest hu hw
  | .up :: rest, budget, here, names, hnames, _, _ => by
    cases names with
    | nil => cases hnames
    | cons name names => cases hnames
  | .down name :: rest, budget, here, names, hnames, hu, hw => by
    obtain ⟨more, rfl, hmore⟩ : ∃ more, names = name :: more ∧
        rest.filterMap Step.component? = more.map .name := by
      cases names with
      | nil => cases hnames
      | cons n more =>
        obtain ⟨hn, hmore⟩ := List.cons.inj hnames
        exact ⟨more, by rw [Component.name.inj hn], hmore⟩
    rw [List.append_cons] at hu ⊢
    rw [walk] at hw
    split at hw
    · split at hw <;> cases hw
    · exact walk_unlinked hmore hu hw
    · split at hw
      · next hrest =>
        rw [List.isEmpty_iff.1 hrest] at hmore
        cases hw
        rw [List.map_eq_nil_iff.1 hmore.symm, List.append_nil]
      · cases hw
    · next target he => exact absurd he (hu _ (List.prefix_append _ more) target)

/-! ## Paths -/

variable {path resolved : Path}

/-- What a path leads to is written as a location. -/
theorem exists_walk_of_canonical (h : files.canonical path = .ok resolved) :
    ∃ at_ entry, resolved = Path.ofNames at_ ∧ files.walk true maxLinks (steps path)
      (if path.isAbsolute then [] else files.workingDirectory) = .ok (.found at_ entry) := by
  unfold canonical find at h
  split at h
  · cases h
  · cases h
  · next at_ entry hr =>
    cases h
    unfold resolve at hr
    split at hr
    · cases hr
    · exact ⟨at_, entry, rfl, hr⟩

theorem isAbsolute_of_canonical (h : files.canonical path = .ok resolved) :
    resolved.isAbsolute = true := by
  obtain ⟨at_, -, rfl, -⟩ := exists_walk_of_canonical h
  exact Path.isAbsolute_ofNames at_

/-- **What an absolute path leads to** has no links on the way to it. -/
theorem exists_clear_of_canonical (habs : path.isAbsolute = true)
    (h : files.canonical path = .ok resolved) :
    ∃ at_, files.Clear at_ ∧ resolved = Path.ofNames at_ := by
  obtain ⟨at_, entry, rfl, hw⟩ := exists_walk_of_canonical h
  rw [habs, if_pos rfl] at hw
  exact ⟨at_, clear_walk (clear_root files) (fun _ hn => proper_of_mem_steps hn) hw, rfl⟩

/-- **An absolute path without links** leads to itself if it leads anywhere. -/
theorem canonical_of_unlinked {names : List String} (hc : path.components = Path.fromRoot names)
    (hu : files.Unlinked names) (h : files.canonical path = .ok resolved) :
    resolved = Path.ofNames names := by
  obtain ⟨at_, entry, rfl, hw⟩ := exists_walk_of_canonical h
  rw [Path.isAbsolute_of_components hc, if_pos rfl] at hw
  rw [walk_unlinked (filterMap_steps hc) hu hw, List.nil_append]

/-- A path that names a file directly below the root, in its shortest spelling, leads to itself. -/
theorem canonical_of_file (name : String) (hpath : path = Path.ofNames [name])
    (hsteps : steps path = [.down name])
    (he : ∃ content, files.entry? [name] = some (.file content)) :
    files.canonical path = .ok path := by
  obtain ⟨content, he⟩ := he
  have habs : path.isAbsolute = true := hpath ▸ Path.isAbsolute_ofNames [name]
  have hsome : path.text.isEmpty = false := by
    rw [Bool.eq_false_iff, ne_eq, String.isEmpty_iff]
    intro hempty
    rw [steps, hempty] at hsteps
    cases hsteps
  rw [canonical, find, resolve, hsome, if_neg Bool.false_ne_true, habs, if_pos rfl, hsteps, walk,
    List.nil_append, he]
  exact congrArg Except.ok hpath.symm

end EventScripts.FileSystem
