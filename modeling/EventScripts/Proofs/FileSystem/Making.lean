import EventScripts.Proofs.FileSystem.Deletion
/-!
# Making directories and files

Making directories changes nothing that is there (`grown_makeDirectories`). It makes
a path without dot-dot lead nowhere that it did not lead to before: the innermost
directory that has been made is empty (`exists?_of_makeDirectories`). What has been
written to a path is what the path leads to (`written_of_write`).
-/

namespace EventScripts.FileSystem

variable {files made after : FileSystem} {here there at_ : Location} {budget left : Nat}
  {path : List Step}

/-! ## Putting an entry -/

theorem lookup_change_self {at_ : Location} {entry : Entry} :
    ∀ {entries : List (Location × Entry)}, at_ ∈ entries.map (·.1) →
    (entries.map fun e => if e.1 = at_ then (e.1, entry) else e).lookup at_ = some entry
  | (l, e) :: rest, h => by
    by_cases hl : l = at_
    · simp [hl]
    · have hne : (at_ == l) = false := by simpa using Ne.symm hl
      have hrest : at_ ∈ rest.map (·.1) := (List.mem_cons.1 h).resolve_left (Ne.symm hl)
      rw [List.map_cons, if_neg hl, List.lookup_cons, hne]
      exact lookup_change_self hrest

theorem lookup_change_ne {at_ other : Location} {entry : Entry} (h : other ≠ at_) :
    ∀ entries : List (Location × Entry),
    (entries.map fun e => if e.1 = at_ then (e.1, entry) else e).lookup other
      = entries.lookup other
  | [] => rfl
  | (l, e) :: rest => by
    rw [List.map_cons]
    by_cases hl : l = at_
    · have hne : (other == l) = false := by simpa [hl] using h
      rw [if_pos hl, List.lookup_cons, List.lookup_cons, hne]
      exact lookup_change_ne h rest
    · rw [if_neg hl, List.lookup_cons, List.lookup_cons, lookup_change_ne h rest]

theorem entry?_put_self (files : FileSystem) (h : at_ ≠ []) (entry : Entry) :
    FileSystem.entry? (files.put at_ entry) at_ = some entry := by
  rw [entry?_of_ne _ h, put]
  split
  · next hmem => exact lookup_change_self hmem
  · exact List.lookup_cons_self

theorem entry?_put_ne (files : FileSystem) (entry : Entry) {other : Location} (h : other ≠ at_) :
    FileSystem.entry? (files.put at_ entry) other = files.entry? other := by
  by_cases hroot : other = []
  · rw [hroot]
    rfl
  · rw [entry?_of_ne _ hroot, entry?_of_ne _ hroot, put]
    split
    · exact lookup_change_ne h files.entries
    · have hne : (other == at_) = false := by simpa using h
      rw [add, List.lookup_cons, hne]

theorem workingDirectory_put (files : FileSystem) (at_ : Location) (entry : Entry) :
    (files.put at_ entry).workingDirectory = files.workingDirectory := by
  unfold put
  split <;> rfl

/-- Where a resolution says that something is missing, nothing is in a directory. -/
theorem missing_of_walk (hwf : files.WellFormed) {follow : Bool} {name : String} {asked : Bool}
    (hd : files.entry? here = some .directory)
    (hw : files.walk follow budget path here = .ok (.missing there name asked)) :
    files.entry? there = some .directory ∧ files.entry? (there ++ [name]) = none := by
  fun_induction FileSystem.walk files follow budget path here with
  | case3 budget rest here ih => exact ih hd hw
  | case4 budget rest here ih => exact ih (hwf.dropLast hd) hw
  | case5 budget name rest here he =>
    cases hw
    exact ⟨hd, he⟩
  | case7 budget name rest here he ih => exact ih he hw
  | case12 name rest here target he _ budget ih =>
    refine ih ?_ hw
    split
    · rfl
    · exact hd
  | case1 | case2 | case6 | case8 | case9 | case10 | case11 => cases hw

theorem walk_of_resolve {follow : Bool} {p : Path} {place : Place}
    (h : files.resolve follow p = .ok place) : p.text.isEmpty = false ∧
    files.walk follow maxLinks (steps p) (if p.isAbsolute then [] else files.workingDirectory)
      = .ok place := by
  unfold resolve at h
  split at h
  · cases h
  · next htext => exact ⟨by simpa using htext, h⟩

/-! ## Directories -/

/-- Directories have been made, and nothing else has changed. -/
structure Grown (files made : FileSystem) : Prop where
  kept : ∀ at_ entry, files.entry? at_ = some entry → made.entry? at_ = some entry
  new : ∀ at_ entry, files.entry? at_ = none → made.entry? at_ = some entry → entry = .directory
  workingDirectory : made.workingDirectory = files.workingDirectory

namespace Grown

theorem refl (files : FileSystem) : files.Grown files where
  kept _ _ he := he
  new at_ entry hnone he := by
    rw [hnone] at he
    cases he
  workingDirectory := rfl

theorem trans (h : files.Grown made) (h' : made.Grown after) : files.Grown after where
  kept at_ entry he := h'.kept at_ entry (h.kept at_ entry he)
  new at_ entry hnone he := by
    cases hm : made.entry? at_ with
    | none => exact h'.new at_ entry hm he
    | some found =>
      obtain rfl := Option.some.inj ((h'.kept at_ found hm).symm.trans he)
      exact h.new at_ found hnone hm
  workingDirectory := h'.workingDirectory.trans h.workingDirectory

end Grown

theorem grown_put (h : files.entry? at_ = none) : files.Grown (files.put at_ .directory) := by
  have hne : at_ ≠ [] := by
    rintro rfl
    cases h
  refine ⟨fun other entry he => ?_, fun other entry hnone he => ?_, workingDirectory_put _ _ _⟩
  · rw [entry?_put_ne, he]
    rintro rfl
    rw [h] at he
    cases he
  · by_cases ho : other = at_
    · rw [ho, entry?_put_self files hne] at he
      exact (Option.some.inj he).symm
    · rw [entry?_put_ne files _ ho, hnone] at he
      cases he

theorem WellFormed.put {name : String} {entry : Entry} (hwf : files.WellFormed)
    (hd : files.entry? here = some .directory) (h : files.entry? (here ++ [name]) = none) :
    (files.put (here ++ [name]) entry).WellFormed where
  nested at_ last he := by
    by_cases hat : at_ ++ [last] = here ++ [name]
    · obtain ⟨rfl, -⟩ := List.append_inj' hat rfl
      rw [entry?_put_ne files _ (by simp), hd]
    · rw [entry?_put_ne files _ hat] at he
      have habove := hwf.nested at_ last he
      rw [entry?_put_ne, habove]
      rintro rfl
      rw [h] at habove
      cases habove
  working := by
    have hworking := hwf.working
    rw [workingDirectory_put, entry?_put_ne, hworking]
    intro hat
    rw [hat, h] at hworking
    cases hworking
  proper := by
    rw [workingDirectory_put]
    exact hwf.proper

/-- The directory at the path has just been made: nothing is in it. -/
def Bare (files : FileSystem) (p : Path) : Prop :=
  p.text.isEmpty = false ∧ ∃ left there, files.Leads maxLinks (steps p)
    (if p.isAbsolute then [] else files.workingDirectory) left there ∧
    ∀ name, files.entry? (there ++ [name]) = none

theorem atEnd_iff : ∀ {path : List Step}, atEnd path = true ↔ path.filterMap Step.component? = []
  | [] => by simp [atEnd]
  | .stay :: rest => show atEnd rest = true ↔ rest.filterMap Step.component? = [] from atEnd_iff
  | .up :: _ | .down _ :: _ => ⟨nofun, nofun⟩

/-- Where a name is missing, a directory of that name is what the steps lead to then. -/
theorem Grown.leads_of_missing (h : files.Grown made) {follow : Bool} {name : String} {asked : Bool}
    (hd : made.entry? (there ++ [name]) = some .directory)
    (hw : files.walk follow budget path here = .ok (.missing there name asked)) :
    ∃ left, made.Leads budget path here left (there ++ [name]) := by
  fun_induction FileSystem.walk files follow budget path here with
  | case3 budget rest here ih =>
    obtain ⟨left, hl⟩ := ih hw
    exact ⟨left, hl.stay⟩
  | case4 budget rest here ih =>
    obtain ⟨left, hl⟩ := ih hw
    exact ⟨left, hl.up⟩
  | case5 budget name rest here he hend =>
    cases hw
    exact ⟨budget, .down hd (leads_of_idle (atEnd_iff.1 hend))⟩
  | case7 budget name rest here he ih =>
    obtain ⟨left, hl⟩ := ih hw
    exact ⟨left, hl.down (h.kept _ _ he)⟩
  | case12 name rest here target he _ budget ih =>
    obtain ⟨left, hl⟩ := ih hw
    exact ⟨left, .follow (h.kept _ _ he) hl⟩
  | case1 | case2 | case6 | case8 | case9 | case10 | case11 => cases hw

/-- **Making one directory** makes an empty one, and changes nothing else. -/
theorem makeDirectory_spec (hwf : files.WellFormed) {p : Path}
    (h : files.makeDirectory p = .ok made) : files.Grown made ∧ made.WellFormed ∧ made.Bare p := by
  unfold makeDirectory at h
  split at h
  · cases h
  · cases h
  · next there name asked hr =>
    cases h
    obtain ⟨htext, hw⟩ := walk_of_resolve hr
    obtain ⟨hd, hnone⟩ := missing_of_walk hwf (hwf.start p).1 hw
    have hgrown := grown_put hnone
    have hmade : FileSystem.entry? (files.put (there ++ [name]) .directory) (there ++ [name])
        = some .directory := entry?_put_self files (by simp) .directory
    obtain ⟨left, hleads⟩ := hgrown.leads_of_missing hmade hw
    rw [← hgrown.workingDirectory] at hleads
    refine ⟨hgrown, hwf.put hd hnone, htext, left, there ++ [name], hleads, fun last => ?_⟩
    rw [entry?_put_ne files _ (by simp)]
    by_contra he
    rw [hwf.nested _ last he] at hnone
    cases hnone

theorem grown_makeDirectoriesAlong : ∀ {paths : List Path} {files : FileSystem},
    files.WellFormed → files.Grown (files.makeDirectoriesAlong paths).1 ∧
      (files.makeDirectoriesAlong paths).1.WellFormed
  | [], files, hwf => ⟨.refl files, hwf⟩
  | path :: above, files, hwf => by
    have hsame : files.Grown files ∧ files.WellFormed := ⟨.refl files, hwf⟩
    have habove : files.Grown (files.makeDirectoriesAlong above).1 ∧
        (files.makeDirectoriesAlong above).1.WellFormed := grown_makeDirectoriesAlong hwf
    rw [makeDirectoriesAlong]
    simp only
    split
    · exact hsame
    · split
      · next made hmake =>
        obtain ⟨hgrown, hmade, -⟩ := makeDirectory_spec hwf hmake
        exact ⟨hgrown, hmade⟩
      · split
        · next made e hresult =>
          rw [hresult] at habove
          exact habove
        · next made hresult =>
          rw [hresult] at habove
          split
          · next again hmake =>
            obtain ⟨hgrown, hagain, -⟩ := makeDirectory_spec habove.2 hmake
            exact ⟨habove.1.trans hgrown, hagain⟩
          · exact habove
      · exact hsame

/-- **Making directories** changes nothing that is there. -/
theorem grown_makeDirectories (hwf : files.WellFormed) (p : Path) :
    files.Grown (files.makeDirectories p).1 ∧ (files.makeDirectories p).1.WellFormed :=
  grown_makeDirectoriesAlong hwf

/-! ## Paths without dot-dot -/

/-- Without a file name and without dot-dot, nothing in a path goes anywhere. -/
theorem filter_moves_eq_nil {p : Path} (hname : p.fileName? = none)
    (hup : .up ∉ p.components) : p.components.filter moves = [] := by
  rcases List.eq_nil_or_concat' (p.components.filter moves) with hnil | ⟨front, c, hc⟩
  · exact hnil
  · have hlast := getLast?_of_moving hc
    have hmem : c ∈ p.components.filter moves := by simp [hc]
    obtain ⟨hmem, hmoves⟩ := List.mem_filter.1 hmem
    cases c with
    | root | here => cases hmoves
    | up => exact absurd hmem hup
    | name name =>
      rw [Path.fileName?_eq_some.2 hlast] at hname
      cases hname

theorem walk_of_idle {follow : Bool} (hd : files.entry? here = some .directory) :
    ∀ {path : List Step}, path.filterMap Step.component? = [] →
    files.walk follow budget path here = .ok (.found here .directory)
  | [], _ => by rw [FileSystem.walk, hd]
  | .stay :: rest, hpath => by
    have hrest : rest.filterMap Step.component? = [] := hpath
    rw [FileSystem.walk]
    exact walk_of_idle hd hrest
  | .up :: _, hpath | .down _ :: _, hpath => by cases hpath

/-- Such a path leads to where it starts. -/
theorem resolve_of_no_name (hwf : files.WellFormed) {p : Path} (htext : p.text.isEmpty = false)
    (hname : p.fileName? = none) (hup : .up ∉ p.components) (follow : Bool) :
    ∃ at_, files.resolve follow p = .ok (.found at_ .directory) := by
  have hidle : (steps p).filterMap Step.component? = [] := by
    rw [filterMap_steps_eq, filter_moves_eq_nil hname hup]
  refine ⟨if p.isAbsolute then [] else files.workingDirectory, ?_⟩
  rw [resolve, htext, if_neg (by simp)]
  exact walk_of_idle (hwf.start p).1 hidle

/-- In an empty directory every name is missing. -/
theorem walk_of_bare {follow : Bool} {name : String} (h : files.entry? (here ++ [name]) = none) :
    ∀ {path : List Step}, path.filterMap Step.component? = [.name name] →
    ∃ asked, files.walk follow budget path here = .ok (.missing here name asked)
  | [], hpath => by cases hpath
  | .stay :: rest, hpath => by
    have hrest : rest.filterMap Step.component? = [.name name] := hpath
    obtain ⟨asked, hw⟩ := walk_of_bare h hrest
    exact ⟨asked, by rw [FileSystem.walk, hw]⟩
  | .up :: _, hpath => by cases hpath
  | .down last :: rest, hpath => by
    obtain ⟨hlast, hrest⟩ := List.cons.inj hpath
    obtain rfl := Component.name.inj hlast
    exact ⟨!rest.isEmpty, by rw [FileSystem.walk, h, if_pos (atEnd_iff.2 hrest)]⟩

theorem Bare.resolve {p parent : Path} {name : String} (h : files.Bare parent)
    (hparent : p.parent? = some parent) (hname : p.fileName? = some name) (follow : Bool) :
    ∃ there asked, files.resolve follow p = .ok (.missing there name asked) := by
  obtain ⟨htext, left, there, hleads, hempty⟩ := h
  obtain ⟨above, directory, habove, hdirectory, hne, habsolute, hsteps⟩ := exists_directory hname
  obtain rfl := Option.some.inj (hparent.symm.trans habove)
  rw [htext, if_neg (by simp)] at hdirectory
  subst hdirectory
  obtain ⟨front, behind, hsplit, hfront, hbehind⟩ := List.filterMap_eq_append_iff.1 hsteps
  have hp : p.text.isEmpty = false := by
    rw [String.isEmpty_eq_false_iff]
    intro hempty
    have hnone : p.fileName? = none := by rw [Path.fileName?, Path.components, hempty]; rfl
    rw [hnone] at hname
    cases hname
  obtain ⟨asked, hw⟩ : ∃ asked, files.walk follow left behind there
      = .ok (.missing there name asked) := walk_of_bare (hempty name) hbehind
  refine ⟨there, asked, ?_⟩
  rw [FileSystem.resolve, hp, if_neg (by simp), hsplit, ← habsolute,
    (hleads.congr hfront).walk_append (.inr ?_), hw]
  rintro rfl
  cases hbehind

/-- What making a directory with those above it comes to, if it goes well. -/
theorem makeDirectoriesAlong_cons {p : Path} {above : List Path}
    (h : files.makeDirectoriesAlong (p :: above) = (made, .ok ())) :
    made = files ∨ files.makeDirectory p = .ok made ∨
    ∃ between, files.makeDirectory p = .error .notFound ∧
      files.makeDirectoriesAlong above = (between, .ok ()) ∧
      (between.makeDirectory p = .ok made ∨
        made = between ∧ ∃ e, between.makeDirectory p = .error e) := by
  rw [makeDirectoriesAlong] at h
  simp only at h
  split at h
  · cases h
    exact .inl rfl
  · split at h
    · next result hmake =>
      cases h
      exact .inr (.inl hmake)
    · next hmake =>
      split at h
      · cases h
      · next between habove =>
        refine .inr (.inr ⟨between, hmake, habove, ?_⟩)
        split at h
        · next result hagain =>
          cases h
          exact .inl hagain
        · next e hagain =>
          exact .inr ⟨(Prod.mk.inj h).1.symm, e, hagain⟩
    · exact .inl (Prod.mk.inj h).1.symm

theorem up_notMem_parent {p parent : Path} (hparent : p.parent? = some parent) {name : String}
    (hname : p.fileName? = some name) (hup : .up ∉ p.components) : .up ∉ parent.components := by
  intro hmem
  obtain ⟨above, directory, habove, hdirectory, -, -, hsteps⟩ := exists_directory hname
  obtain rfl := Option.some.inj (hparent.symm.trans habove)
  have htext : parent.text.isEmpty = false := by
    rw [String.isEmpty_eq_false_iff]
    intro hempty
    rw [Path.components, hempty] at hmem
    cases hmem
  rw [htext, if_neg (by simp)] at hdirectory
  subst hdirectory
  rw [filterMap_steps_eq, filterMap_steps_eq] at hsteps
  have hmoving : .up ∈ p.components.filter moves := by
    rw [hsteps]
    exact List.mem_append_left _ (List.mem_filter.2 ⟨hmem, rfl⟩)
  exact hup (List.mem_filter.1 hmoving).1

theorem text_of_parent {p parent : Path} (h : p.parent? = some parent) :
    p.text.isEmpty = false := by
  rw [String.isEmpty_eq_false_iff]
  intro hempty
  have hnone : p.parent? = none := by
    rw [Path.parent?, Path.components, hempty]
    rfl
  rw [hnone] at h
  cases h

/-- **What is made along a path without dot-dot** is one directory in the other, so that the last
one is empty. -/
theorem bare_of_makeDirectoriesAlong (hwf : files.WellFormed) : ∀ {count : Nat} {p : Path}
    {made : FileSystem}, .up ∉ p.components →
    files.makeDirectoriesAlong (Path.upward count p) = (made, .ok ()) →
    made = files ∨ made.Bare p
  | 0, p, made, _, h => by
    cases h
    exact .inl rfl
  | count + 1, p, made, hup, h => by
    have hkept : ∀ {between : FileSystem}, files.makeDirectory p = .error .notFound →
        between = files → (between.makeDirectory p = .ok made ∨
          made = between ∧ ∃ e, between.makeDirectory p = .error e) → made = files := by
      rintro between hmissing rfl (hagain | ⟨rfl, -⟩)
      · rw [hmissing] at hagain
        cases hagain
      · rfl
    rw [Path.upward] at h
    split at h
    · rcases makeDirectoriesAlong_cons h with hsame | hmake | ⟨between, hmissing, habove, hagain⟩
      · exact .inl hsame
      · exact .inr (makeDirectory_spec hwf hmake).2.2
      · cases habove
        exact .inl (hkept hmissing rfl hagain)
    · next parent hparent =>
      rcases makeDirectoriesAlong_cons h with hsame | hmake | ⟨between, hmissing, habove, hagain⟩
      · exact .inl hsame
      · exact .inr (makeDirectory_spec hwf hmake).2.2
      · cases hname : p.fileName? with
        | none =>
          obtain ⟨at_, hr⟩ := resolve_of_no_name hwf (text_of_parent hparent) hname hup false
          rw [makeDirectory, hr] at hmissing
          cases hmissing
        | some name =>
          rcases bare_of_makeDirectoriesAlong hwf (up_notMem_parent hparent hname hup) habove with
            hsame | hbare
          · exact .inl (hkept hmissing hsame hagain)
          · have hwell : (files.makeDirectoriesAlong (Path.upward count parent)).1.WellFormed :=
              (grown_makeDirectoriesAlong hwf).2
            rw [habove] at hwell
            obtain ⟨there, asked, hr⟩ := hbare.resolve hparent hname false
            rcases hagain with hmake | ⟨-, e, hfails⟩
            · exact .inr (makeDirectory_spec hwell hmake).2.2
            · rw [makeDirectory, hr] at hfails
              cases hfails

/-- **A path without dot-dot** leads nowhere that it did not lead to before, when the directories
above it are made. -/
theorem exists?_of_makeDirectories (hwf : files.WellFormed) {p parent : Path}
    (hup : .up ∉ p.components) (hparent : p.parent? = some parent)
    (h : files.makeDirectories parent = (made, .ok ())) (hnone : files.exists? p = false) :
    made.exists? p = false := by
  have htext := text_of_parent hparent
  cases hname : p.fileName? with
  | none =>
    obtain ⟨at_, hr⟩ := resolve_of_no_name hwf htext hname hup true
    rw [exists?, find, hr] at hnone
    cases hnone
  | some name =>
    rcases bare_of_makeDirectoriesAlong hwf (up_notMem_parent hparent hname hup) h with
      rfl | hbare
    · exact hnone
    · obtain ⟨there, asked, hr⟩ := hbare.resolve hparent hname true
      rw [exists?, find, hr]
      rfl

/-! ## Files -/

/-- A file has been written: nothing or another file was there, and nothing else has changed. -/
structure Written (files : FileSystem) (at_ : Location) (content : Content) (after : FileSystem) :
    Prop where
  before : ∀ entry, files.entry? at_ = some entry → ∃ old, entry = .file old
  file : after.entry? at_ = some (.file content)
  kept : ∀ other, other ≠ at_ → after.entry? other = files.entry? other
  workingDirectory : after.workingDirectory = files.workingDirectory

theorem written_put {content : Content}
    (h : ∀ entry, files.entry? at_ = some entry → ∃ old, entry = .file old) :
    files.Written at_ content (files.put at_ (.file content)) := by
  have hne : at_ ≠ [] := by
    rintro rfl
    obtain ⟨old, ho⟩ := h .directory rfl
    cases ho
  exact ⟨h, entry?_put_self files hne _, fun other ho => entry?_put_ne files _ ho,
    workingDirectory_put files at_ _⟩

namespace Written

theorem entry?_eq {content : Content} (h : files.Written at_ content after) {entry : Entry}
    (he : files.entry? here = some entry) (hne : ∀ old, entry ≠ .file old) :
    after.entry? here = some entry := by
  rw [h.kept here, he]
  rintro rfl
  obtain ⟨old, ho⟩ := h.before entry he
  exact hne old ho

/-- What was to lead to the file leads to it. -/
theorem walk {content : Content} (h : files.Written at_ content after) {place : Place}
    (hw : files.walk true budget path here = .ok place)
    (hplace : (∃ old, place = .found at_ (.file old)) ∨
      ∃ there name, place = .missing there name false ∧ there ++ [name] = at_) :
    after.walk true budget path here = .ok (.found at_ (.file content)) := by
  fun_induction FileSystem.walk files true budget path here with
  | case1 _ here entry he =>
    cases hw
    obtain ⟨old, ho⟩ | ⟨there, name, ho, -⟩ := hplace
    · cases ho
      rw [FileSystem.walk, h.file]
    · cases ho
  | case3 budget rest here ih =>
    rw [FileSystem.walk]
    exact ih hw
  | case4 budget rest here ih =>
    rw [FileSystem.walk]
    exact ih hw
  | case5 budget name rest here he hend =>
    cases hw
    obtain ⟨old, ho⟩ | ⟨there, last, ho, hat⟩ := hplace
    · cases ho
    · obtain ⟨rfl, rfl, hasked⟩ := Place.missing.inj ho
      rw [FileSystem.walk, hat, h.file]
      simp only
      rw [if_pos (by simpa using hasked)]
  | case7 budget name rest here he ih =>
    rw [FileSystem.walk, h.entry?_eq he (by simp)]
    exact ih hw
  | case8 budget name rest here old he hrest =>
    cases hw
    obtain ⟨old, ho⟩ | ⟨there, last, ho, -⟩ := hplace
    · obtain ⟨hat, -⟩ := Place.found.inj ho
      rw [FileSystem.walk, hat, h.file]
      simp only
      rw [if_pos hrest]
    · cases ho
  | case10 budget name rest here target he hlast => simp at hlast
  | case12 name rest here target he hgoes budget ih =>
    rw [FileSystem.walk, h.entry?_eq he (by simp)]
    simp only
    rw [if_neg hgoes]
    exact ih hw
  | case2 | case6 | case9 | case11 => cases hw

end Written

theorem write_of_find {p : Path} {old : Content} (content : Content)
    (h : files.find p = .ok (at_, .file old)) :
    files.write p content = .ok (files.put at_ (.file content)) := by
  obtain ⟨htext, hw⟩ := find_eq_ok.1 h
  rw [write, resolve, htext, if_neg (by simp), hw]

/-- **Writing a file** changes the file that the path leads to, or makes one where it leads
nowhere, and it leads there then. -/
theorem written_of_write (hwf : files.WellFormed) {p : Path} {content : Content}
    (h : files.write p content = .ok after) : ∃ at_, files.Written at_ content after ∧
      after.find p = .ok (at_, .file content) ∧
      ((∃ old, files.find p = .ok (at_, .file old)) ∨ files.entry? at_ = none) := by
  unfold write at h
  split at h
  · cases h
  · next at_ old hr =>
    cases h
    obtain ⟨htext, hw⟩ := walk_of_resolve hr
    have hold := entry?_of_walk hw
    have hwritten : files.Written at_ content (files.put at_ (.file content)) :=
      written_put fun entry he => ⟨old, Option.some.inj (he.symm.trans hold)⟩
    refine ⟨at_, hwritten, find_eq_ok.2 ⟨htext, ?_⟩, .inl ⟨old, find_eq_ok.2 ⟨htext, hw⟩⟩⟩
    rw [hwritten.workingDirectory]
    exact hwritten.walk hw (.inl ⟨old, rfl⟩)
  · cases h
  · next there name asked hr =>
    split at h
    · cases h
    · next hasked =>
      cases h
      obtain ⟨htext, hw⟩ := walk_of_resolve hr
      have hnone := (missing_of_walk hwf (hwf.start p).1 hw).2
      have hwritten : files.Written (there ++ [name]) content
          (files.put (there ++ [name]) (.file content)) := written_put (by rw [hnone]; nofun)
      refine ⟨there ++ [name], hwritten, find_eq_ok.2 ⟨htext, ?_⟩, .inr hnone⟩
      rw [hwritten.workingDirectory]
      refine hwritten.walk hw (.inr ⟨there, name, ?_, rfl⟩)
      rw [Bool.not_eq_true] at hasked
      rw [hasked]

end EventScripts.FileSystem
