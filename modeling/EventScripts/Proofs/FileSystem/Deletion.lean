import EventScripts.FileSystem.Change
import EventScripts.Proofs.FileSystem.Resolution
/-!
# Files that have been deleted

A path to a file is a way to a directory (`Leads`) with one more name behind it,
under which the file stands, or a link (`exists_standing`). When the file has been
deleted, the way is still the same (`Deleted.leads`), but the path as a whole
leads nowhere (`Deleted.walk`).
-/

namespace EventScripts.FileSystem

/-- Whatever there is lies in a directory, and the working directory is there. -/
structure WellFormed (files : FileSystem) : Prop where
  nested : ∀ at_ name, files.entry? (at_ ++ [name]) ≠ none → files.entry? at_ = some .directory
  working : files.entry? files.workingDirectory = some .directory
  proper : ∀ name ∈ files.workingDirectory, Path.Proper name

theorem entry?_of_ne (files : FileSystem) {at_ : Location} (h : at_ ≠ []) :
    files.entry? at_ = files.entries.lookup at_ := if_neg h

/-- It is enough that the entries lie in directories. -/
theorem wellFormed_of_entries {files : FileSystem}
    (h : ∀ e ∈ files.entries, files.entry? e.1.dropLast = some .directory)
    (hworking : files.entry? files.workingDirectory = some .directory)
    (hproper : ∀ name ∈ files.workingDirectory, Path.Proper name) : files.WellFormed where
  nested at_ name he := by
    rw [entry?_of_ne files (by simp)] at he
    obtain ⟨entry, hl⟩ := Option.ne_none_iff_exists'.1 he
    have hmem : (at_ ++ [name], entry) ∈ files.entries := by
      obtain ⟨front, behind, hsplit, -⟩ := List.lookup_eq_some_iff.1 hl
      simp [hsplit]
    simpa using h _ hmem
  working := hworking
  proper := hproper

namespace WellFormed

variable {files : FileSystem} {here at_ : Location}

theorem dropLast (h : files.WellFormed) (hd : files.entry? here = some .directory) :
    files.entry? here.dropLast = some .directory := by
  rcases List.eq_nil_or_concat' here with rfl | ⟨front, name, rfl⟩
  · rfl
  · rw [List.dropLast_concat]
    exact h.nested front name (by simp [hd])

/-- No link stands on the way to anything. -/
theorem unlinked (h : files.WellFormed) (hd : files.entry? at_ = some .directory) :
    files.Unlinked at_ := by
  induction at_ using List.reverseRecOn with
  | nil => exact (clear_root files).unlinked
  | append_singleton front name ih =>
    intro above ha target he
    rcases List.prefix_concat_iff.1 ha with rfl | ha
    · cases hd.symm.trans he
    · exact ih (h.nested front name (by simp [hd])) above ha target he

/-- Only directories have something below them. -/
theorem directory_of_prefix (h : files.WellFormed) {below : Location} (hp : here <+: below)
    (hne : here ≠ below) (he : files.entry? below ≠ none) :
    files.entry? here = some .directory := by
  induction below using List.reverseRecOn with
  | nil => exact absurd (List.prefix_nil.1 hp) hne
  | append_singleton front name ih =>
    have hfront := h.nested front name he
    rcases List.prefix_concat_iff.1 hp with rfl | hp
    · exact absurd rfl hne
    · by_cases heq : here = front
      · rw [heq, hfront]
      · exact ih hp heq (by simp [hfront])

/-- Where a path starts is a directory without links on the way to it. -/
theorem start (h : files.WellFormed) (p : Path) :
    files.entry? (if p.isAbsolute then [] else files.workingDirectory) = some .directory ∧
      files.Clear (if p.isAbsolute then [] else files.workingDirectory) := by
  split
  · exact ⟨rfl, clear_root files⟩
  · exact ⟨h.working, h.unlinked h.working, h.proper⟩

end WellFormed

/-! ## The way to a directory -/

/-- The steps lead from one directory to another; of the links that may be followed, as many are
left as the last number says. -/
inductive Leads (files : FileSystem) : Nat → List Step → Location → Nat → Location → Prop
  | nil (budget : Nat) (here : Location) : Leads files budget [] here budget here
  | stay {budget left : Nat} {rest : List Step} {here there : Location} :
    Leads files budget rest here left there → Leads files budget (.stay :: rest) here left there
  | up {budget left : Nat} {rest : List Step} {here there : Location} :
    Leads files budget rest here.dropLast left there →
    Leads files budget (.up :: rest) here left there
  | down {budget left : Nat} {rest : List Step} {here there : Location} {name : String} :
    files.entry? (here ++ [name]) = some .directory →
    Leads files budget rest (here ++ [name]) left there →
    Leads files budget (.down name :: rest) here left there
  | follow {budget left : Nat} {rest : List Step} {here there : Location} {name : String}
      {target : Path} : files.entry? (here ++ [name]) = some (.link target) →
    Leads files budget (steps target ++ rest) (if target.isAbsolute then [] else here) left there →
    Leads files (budget + 1) (.down name :: rest) here left there

variable {files after : FileSystem} {here there at_ : Location} {budget left : Nat}
  {path : List Step}

/-- A resolution goes on where the way has led to. -/
theorem Leads.walk_append {follow : Bool} {behind : List Step}
    (h : files.Leads budget path here left there) (hb : follow = true ∨ behind ≠ []) :
    files.walk follow budget (path ++ behind) here = files.walk follow left behind there := by
  induction h with
  | nil => rfl
  | stay _ ih | up _ ih =>
    rw [List.cons_append, walk]
    exact ih
  | down he _ ih =>
    rw [List.cons_append, walk]
    simp only [he]
    exact ih
  | @follow budget left rest here there name target he _ ih =>
    have hgoes : ((rest ++ behind).isEmpty && !follow) = false := by
      rcases hb with rfl | hb
      · simp
      · simp [hb]
    rw [List.cons_append, walk]
    simp only [he, hgoes, Bool.false_eq_true, if_false]
    rw [← List.append_assoc]
    exact ih

theorem Leads.directory (hwf : files.WellFormed) (h : files.Leads budget path here left there)
    (hd : files.entry? here = some .directory) : files.entry? there = some .directory := by
  induction h with
  | nil => exact hd
  | stay _ ih => exact ih hd
  | up _ ih => exact ih (hwf.dropLast hd)
  | down he _ ih => exact ih he
  | follow _ _ ih =>
    refine ih ?_
    split
    · rfl
    · exact hd

/-- The way is one by itself. -/
theorem Leads.walk (hwf : files.WellFormed) (h : files.Leads budget path here left there)
    (hd : files.entry? here = some .directory) :
    files.walk true budget path here = .ok (.found there .directory) := by
  have hw : files.walk true budget (path ++ []) here = files.walk true left [] there :=
    h.walk_append (Or.inl rfl)
  rw [List.append_nil] at hw
  rw [hw, FileSystem.walk, h.directory hwf hd]

/-- **A path to a file** has the name of an entry at its end, and a way to a directory before it. -/
theorem exists_leads (hwf : files.WellFormed) {content : Content}
    (hd : files.entry? here = some .directory)
    (hw : files.walk true budget path here = .ok (.found at_ (.file content))) :
    ∃ front name left there, path = front ++ [.down name] ∧
      files.Leads budget front here left there := by
  fun_induction FileSystem.walk files true budget path here with
  | case1 _ here entry he =>
    cases hw
    cases hd.symm.trans he
  | case3 budget rest here ih =>
    obtain ⟨front, name, left, there, rfl, hleads⟩ := ih hd hw
    exact ⟨.stay :: front, name, left, there, rfl, hleads.stay⟩
  | case4 budget rest here ih =>
    obtain ⟨front, name, left, there, rfl, hleads⟩ := ih (hwf.dropLast hd) hw
    exact ⟨.up :: front, name, left, there, rfl, hleads.up⟩
  | case7 budget name rest here he ih =>
    obtain ⟨front, last, left, there, rfl, hleads⟩ := ih he hw
    exact ⟨.down name :: front, last, left, there, rfl, hleads.down he⟩
  | case8 budget name rest here content he hrest =>
    exact ⟨[], name, budget, here, by rw [List.isEmpty_iff.1 hrest]; rfl, .nil budget here⟩
  | case10 budget name rest here target he hlast => simp at hlast
  | case12 name rest here target he _ budget ih =>
    have hstart : files.entry? (if target.isAbsolute then [] else here) = some .directory := by
      split
      · rfl
      · exact hd
    obtain ⟨front, last, left, there, hsteps, hleads⟩ := ih hstart hw
    rcases List.eq_nil_or_concat' rest with rfl | ⟨before, step, rfl⟩
    · exact ⟨[], name, budget + 1, here, rfl, .nil _ here⟩
    · rw [← List.append_assoc] at hsteps
      obtain ⟨rfl, hlast⟩ := List.append_inj' hsteps rfl
      exact ⟨.down name :: before, last, left, there, by rw [hlast]; rfl, .follow he hleads⟩
  | case2 | case5 | case6 | case9 | case11 => cases hw

/-! ## Steps that matter -/

/-- Steps that come from no component lead nowhere else. -/
theorem leads_of_idle : ∀ {path : List Step}, path.filterMap Step.component? = [] →
    files.Leads budget path here budget here
  | [], _ => .nil budget here
  | .stay :: rest, h => by
    have hrest : rest.filterMap Step.component? = [] := h
    exact (leads_of_idle hrest).stay
  | .up :: _, h | .down _ :: _, h => by cases h

/-- The first step that comes from a component may be taken at once. -/
theorem exists_step_of_component (files : FileSystem) {c : Component} {cs : List Component} :
    ∀ {path : List Step},
    path.filterMap Step.component? = c :: cs → ∃ step rest, step.component? = some c ∧
      rest.filterMap Step.component? = cs ∧ ∀ {budget here left there},
        files.Leads budget (step :: rest) here left there →
        files.Leads budget path here left there
  | [], h => by cases h
  | .stay :: rest, h => by
    have hrest : rest.filterMap Step.component? = c :: cs := h
    obtain ⟨step, behind, hstep, hbehind, hleads⟩ := exists_step_of_component files hrest
    exact ⟨step, behind, hstep, hbehind, fun hl => (hleads hl).stay⟩
  | .up :: rest, h => ⟨.up, rest, by rw [← (List.cons.inj h).1]; rfl, (List.cons.inj h).2, id⟩
  | .down name :: rest, h =>
    ⟨.down name, rest, by rw [← (List.cons.inj h).1]; rfl, (List.cons.inj h).2, id⟩

/-- **The way depends on the components only.** -/
theorem Leads.congr (h : files.Leads budget path here left there) : ∀ {other : List Step},
    other.filterMap Step.component? = path.filterMap Step.component? →
    files.Leads budget other here left there := by
  induction h with
  | nil => exact fun ho => leads_of_idle ho
  | stay _ ih => exact fun ho => ih ho
  | up _ ih =>
    intro other ho
    obtain ⟨step, rest, hstep, hrest, hleads⟩ := exists_step_of_component files ho
    cases step <;> cases hstep
    exact hleads (ih hrest).up
  | down he _ ih =>
    intro other ho
    obtain ⟨step, rest, hstep, hrest, hleads⟩ := exists_step_of_component files ho
    cases step <;> cases hstep
    exact hleads ((ih hrest).down he)
  | follow he _ ih =>
    intro other ho
    obtain ⟨step, rest, hstep, hrest, hleads⟩ := exists_step_of_component files ho
    cases step <;> cases hstep
    refine hleads (.follow he (ih ?_))
    rw [List.filterMap_append, List.filterMap_append, hrest]

/-- Whether a component is a step up or down. -/
def moves : Component → Bool
  | .root | .here => false
  | .up | .name _ => true

theorem moves_of_ofPiece? {part : List Char} {c : Component}
    (h : Component.ofPiece? part = some c) : moves c = true := by
  unfold Component.ofPiece? at h
  split at h <;> cases h <;> rfl

theorem filter_lead (first : List Char) (alone : Bool) :
    (Path.lead first alone).filter moves = (Component.ofPiece? first).toList := by
  unfold Path.lead
  split
  · cases alone <;> rfl
  · rfl
  · cases hp : Component.ofPiece? first with
    | none => rfl
    | some c => simp [moves_of_ofPiece? hp]

/-- The steps of a path are those of its components that move. -/
theorem filterMap_steps_eq (p : Path) :
    (steps p).filterMap Step.component? = p.components.filter moves := by
  have hsteps : (steps p).filterMap Step.component?
      = (Path.piecesOf p.text.toList).filterMap Component.ofPiece? := by
    unfold steps
    split
    · next hempty => rw [List.isEmpty_iff.1 hempty]; rfl
    · exact filterMap_stepsOfPieces _
  rw [hsteps, Path.components]
  cases hp : Path.piecesOf p.text.toList with
  | nil => rfl
  | cons first rest =>
    have hrest : (rest.filterMap Component.ofPiece?).filter moves
        = rest.filterMap Component.ofPiece? := by
      refine List.filter_eq_self.2 fun c hc => ?_
      obtain ⟨part, -, hpart⟩ := List.mem_filterMap.1 hc
      exact moves_of_ofPiece? hpart
    rw [Path.componentsOf_cons, List.filter_append, filter_lead, hrest]
    cases h : Component.ofPiece? first <;> simp [h]

/-- What a path does last is its last component. -/
theorem getLast?_of_moving {p : Path} {front : List Component} {c : Component}
    (h : p.components.filter moves = front ++ [c]) : p.components.getLast? = some c := by
  cases hp : Path.piecesOf p.text.toList with
  | nil => exact absurd hp (Text.pieces_ne_nil _)
  | cons first rest =>
    rw [Path.components, hp, Path.componentsOf_cons] at h ⊢
    rcases List.eq_nil_or_concat' (rest.filterMap Component.ofPiece?) with hr | ⟨before, d, hr⟩
    · -- the first part is the only one that counts
      rw [hr, List.append_nil, filter_lead] at h
      rw [hr, List.append_nil]
      cases hfirst : Component.ofPiece? first with
      | none => simp [hfirst] at h
      | some d =>
        have hone : [] ++ [d] = front ++ [c] := by
          rw [← h, hfirst]
          rfl
        obtain ⟨-, hd⟩ := List.append_inj' hone rfl
        unfold Path.lead
        split
        · cases hfirst
        · cases hfirst
        · rw [hfirst, (List.cons.inj hd).1]
          rfl
    · have hd : d ∈ rest.filterMap Component.ofPiece? := by simp [hr]
      obtain ⟨part, -, hpart⟩ := List.mem_filterMap.1 hd
      rw [hr, ← List.append_assoc, List.filter_append,
        List.filter_cons_of_pos (moves_of_ofPiece? hpart)] at h
      obtain ⟨-, hc⟩ := List.append_inj' h rfl
      rw [hr, ← List.append_assoc, List.getLast?_concat, (List.cons.inj hc).1]

/-- A path whose last step is a name has that file name. -/
theorem fileName?_of_steps {p : Path} {front : List Step} {name : String}
    (h : steps p = front ++ [.down name]) : p.fileName? = some name := by
  have hmoving : p.components.filter moves
      = front.filterMap Step.component? ++ [.name name] := by
    rw [← filterMap_steps_eq, h, List.filterMap_append]
    rfl
  exact Path.fileName?_eq_some.2 (getLast?_of_moving hmoving)

/-- **The directory of a path**: the parent, or the working directory if that is empty. What is
left of the path is its last name. -/
theorem exists_directory {p : Path} {name : String} (h : p.fileName? = some name) :
    ∃ parent directory : Path, p.parent? = some parent ∧
      (if parent.text.isEmpty then ⟨"."⟩ else parent) = directory ∧
      directory.text.isEmpty = false ∧ directory.isAbsolute = p.isAbsolute ∧
      (steps p).filterMap Step.component?
        = (steps directory).filterMap Step.component? ++ [.name name] := by
  rw [filterMap_steps_eq]
  obtain ⟨first, rest, hp, ⟨ht, -, hc⟩ | ⟨mid, ht, -, hc⟩⟩ := Path.pieces_of_fileName? h
  · have hrelative : p.isAbsolute = false := by
      rw [← Bool.not_eq_true, Path.isAbsolute_iff, hc]
      nofun
    refine ⟨⟨""⟩, ⟨"."⟩, Path.parent?_of_alone h hp ht, rfl, rfl, hrelative.symm, ?_⟩
    have hstays : (steps ⟨"."⟩).filterMap Step.component? = [] := by decide
    rw [hc, hstays]
    rfl
  · have hparent := Path.parent?_of_behind h hp ht
    generalize hpp : Path.ofPieces first.isEmpty (first :: mid.rdropWhile Path.isIdle) = parent
      at hparent
    have hpc : parent.components = Path.lead first false ++ mid.filterMap Component.ofPiece? := by
      rw [← hpp, Path.components_ofPieces (Path.noSlash_of_left hp ht), Path.filterMap_rdropWhile]
    have hfull : parent.components ≠ [] := by
      rw [hpc]
      exact List.append_ne_nil_of_left_ne_nil (Path.lead_ne_nil first) _
    have htext : parent.text.isEmpty = false := by
      rw [String.isEmpty_eq_false_iff]
      intro hempty
      exact hfull (by rw [Path.components, hempty]; rfl)
    rw [← hpc] at hc
    refine ⟨parent, parent, hparent, by rw [htext]; rfl, htext, ?_, ?_⟩
    · rw [Bool.eq_iff_iff, Path.isAbsolute_iff, Path.isAbsolute_iff, hc,
        List.head?_append_of_ne_nil _ hfull]
    · rw [filterMap_steps_eq, hc, List.filter_append]
      rfl

/-! ## Where a path to a file stands -/

theorem find_eq_ok {p : Path} {entry : Entry} :
    files.find p = .ok (at_, entry) ↔ p.text.isEmpty = false ∧
      files.walk true maxLinks (steps p) (if p.isAbsolute then [] else files.workingDirectory)
        = .ok (.found at_ entry) := by
  unfold find resolve
  cases p.text.isEmpty with
  | true => simp
  | false =>
    simp only [Bool.false_eq_true, if_false, true_and]
    split <;> simp_all

/-- What a resolution finds stands where it has found it. -/
theorem entry?_of_walk {follow : Bool} {entry : Entry}
    (hw : files.walk follow budget path here = .ok (.found at_ entry)) :
    files.entry? at_ = some entry := by
  fun_induction FileSystem.walk files follow budget path here with
  | case1 _ here found he =>
    cases hw
    exact he
  | case3 _ _ _ ih | case4 _ _ _ ih | case7 _ _ _ _ _ ih | case12 _ _ _ _ _ _ _ ih => exact ih hw
  | case8 budget name rest here content he | case10 budget name rest here target he =>
    cases hw
    exact he
  | case2 | case5 | case6 | case9 | case11 => cases hw

/-- Where the last name of a path stands, and the way to its directory. -/
structure Standing (files : FileSystem) (p : Path) (there : Location) (name : String)
    (entry : Entry) : Prop where
  leads : ∃ front left, steps p = front ++ [.down name] ∧ files.Leads maxLinks front
    (if p.isAbsolute then [] else files.workingDirectory) left there
  directory : files.entry? there = some .directory
  clear : files.Clear there
  proper : Path.Proper name
  resolves : files.resolve false p = .ok (.found (there ++ [name]) entry)

/-- **A path to a file stands somewhere**, be it where the file is or where a link is. -/
theorem exists_standing (hwf : files.WellFormed) {p : Path} {content : Content}
    (h : files.find p = .ok (at_, .file content)) : files.Clear at_ ∧
    ∃ there name entry, files.Standing p there name entry ∧
      (entry = .file content ∧ there ++ [name] = at_ ∨
        ∃ target, entry = .link target ∧ there ++ [name] ≠ at_) := by
  obtain ⟨hdirectory, hclear⟩ := hwf.start p
  obtain ⟨htext, hw⟩ := find_eq_ok.1 h
  have hproper : ∀ name, Step.down name ∈ steps p → Path.Proper name :=
    fun _ hn => proper_of_mem_steps hn
  refine ⟨clear_walk hclear hproper hw, ?_⟩
  obtain ⟨front, name, left, there, hsteps, hleads⟩ := exists_leads hwf hdirectory hw
  rw [hsteps] at hproper hw
  have hthere : files.Clear there :=
    clear_walk hclear (fun n hn => hproper n (by simp [hn])) (hleads.walk hwf hdirectory)
  -- the path stands where its last step leads if a link is not followed there
  have hresolve : files.resolve false p = files.walk false left [.down name] there := by
    unfold resolve
    rw [htext, hsteps]
    exact hleads.walk_append (Or.inr (by simp))
  have hlast := (hleads.walk_append (Or.inl rfl)).symm.trans hw
  have hstanding : ∀ entry, files.resolve false p = .ok (.found (there ++ [name]) entry) →
      files.Standing p there name entry := fun entry hr =>
    ⟨⟨front, left, hsteps, hleads⟩, hleads.directory hwf hdirectory, hthere,
      hproper name (by simp), hr⟩
  cases he : files.entry? (there ++ [name]) with
  | none =>
    rw [FileSystem.walk, he] at hlast
    cases hlast
  | some entry =>
    cases entry with
    | file found =>
      have hr : files.resolve false p = .ok (.found (there ++ [name]) (.file found)) := by
        rw [hresolve, FileSystem.walk, he]
        rfl
      rw [FileSystem.walk, he] at hlast
      cases hlast
      exact ⟨there, name, _, hstanding _ hr, Or.inl ⟨rfl, rfl⟩⟩
    | directory =>
      rw [FileSystem.walk, he] at hlast
      simp only [FileSystem.walk, he] at hlast
      cases hlast
    | link target =>
      have hr : files.resolve false p = .ok (.found (there ++ [name]) (.link target)) := by
        rw [hresolve, FileSystem.walk, he]
        rfl
      refine ⟨there, name, _, hstanding _ hr, Or.inr ⟨target, rfl, ?_⟩⟩
      intro hat
      rw [hat, entry?_of_walk hw] at he
      cases he

/-! ## Deletion -/

/-- The file at a location has been deleted, and nothing else has changed. -/
structure Deleted (files : FileSystem) (at_ : Location) (after : FileSystem) : Prop where
  file : ∃ content, files.entry? at_ = some (.file content)
  gone : after.entry? at_ = none
  kept : ∀ other, other ≠ at_ → after.entry? other = files.entry? other
  workingDirectory : after.workingDirectory = files.workingDirectory

theorem lookup_filter {α β : Type} [BEq α] [LawfulBEq α] (q : α → Bool) (other : α) :
    ∀ entries : List (α × β), (entries.filter fun e => q e.1).lookup other
      = if q other then entries.lookup other else none
  | [] => by simp
  | (key, entry) :: rest => by
    have ih := lookup_filter q other rest
    by_cases hkey : other = key
    · subst hkey
      cases hq : q other with
      | false => rw [List.filter_cons_of_neg (by simp [hq]), ih, hq]; rfl
      | true => simp [List.filter_cons_of_pos, hq]
    · have hne : (other == key) = false := by simpa using hkey
      cases hq : q key with
      | false => simp [List.lookup_cons, hq, hne, ih]
      | true => simp [List.lookup_cons, hq, hne, ih]

/-- Removing a file deletes it and nothing else. -/
theorem deleted_removeTree (hwf : files.WellFormed) {content : Content}
    (h : files.entry? at_ = some (.file content)) : files.Deleted at_ (files.removeTree at_) := by
  have hne : at_ ≠ [] := by
    rintro rfl
    cases h
  have hentry : ∀ other, other ≠ [] → FileSystem.entry? (files.removeTree at_) other
      = if !at_.isPrefixOf other then files.entries.lookup other else none := by
    intro other ho
    rw [entry?_of_ne _ ho]
    exact lookup_filter (fun l => !at_.isPrefixOf l) other files.entries
  refine ⟨⟨content, h⟩, ?_, fun other ho => ?_, rfl⟩
  · have hself : at_.isPrefixOf at_ = true := List.isPrefixOf_iff_prefix.2 (List.prefix_refl at_)
    rw [hentry at_ hne, hself]
    rfl
  · by_cases hroot : other = []
    · rw [hroot]
      rfl
    · rw [hentry other hroot]
      cases hp : at_.isPrefixOf other with
      | false =>
        rw [entry?_of_ne files hroot]
        rfl
      | true =>
        -- nothing is below a file
        have hnone : files.entry? other = none := by
          by_contra he
          cases h.symm.trans
            (hwf.directory_of_prefix (List.isPrefixOf_iff_prefix.1 hp) (Ne.symm ho) he)
        rw [hnone]
        rfl

namespace Deleted

theorem entry?_eq (h : files.Deleted at_ after) {entry : Entry}
    (he : files.entry? here = some entry) (hne : ∀ content, entry ≠ .file content) :
    after.entry? here = some entry := by
  obtain ⟨content, hfile⟩ := h.file
  rw [h.kept here, he]
  rintro rfl
  exact hne content (Option.some.inj (he.symm.trans hfile))

theorem leads (h : files.Deleted at_ after) (hl : files.Leads budget path here left there) :
    after.Leads budget path here left there := by
  induction hl with
  | nil => exact .nil _ _
  | stay _ ih => exact ih.stay
  | up _ ih => exact ih.up
  | down he _ ih => exact ih.down (h.entry?_eq he nofun)
  | follow he _ ih => exact .follow (h.entry?_eq he nofun) ih

theorem wellFormed (h : files.Deleted at_ after) (hwf : files.WellFormed) : after.WellFormed where
  nested front name he := by
    refine h.entry?_eq (hwf.nested front name fun hnone => he ?_) nofun
    by_cases heq : front ++ [name] = at_
    · rw [heq, h.gone]
    · rw [h.kept _ heq, hnone]
  working := by
    rw [h.workingDirectory]
    exact h.entry?_eq hwf.working nofun
  proper := by
    rw [h.workingDirectory]
    exact hwf.proper

/-- What led to the file leads nowhere. -/
theorem walk (h : files.Deleted at_ after) {entry : Entry}
    (hw : files.walk true budget path here = .ok (.found at_ entry)) :
    ∀ other found, after.walk true budget path here ≠ .ok (.found other found) := by
  obtain ⟨content, hfile⟩ := h.file
  fun_induction FileSystem.walk files true budget path here with
  | case1 _ here found he =>
    cases hw
    intro other found'
    rw [FileSystem.walk, h.gone]
    exact fun hfound => by cases hfound
  | case3 budget rest here ih =>
    rw [FileSystem.walk]
    exact ih hw
  | case4 budget rest here ih =>
    rw [FileSystem.walk]
    exact ih hw
  | case7 budget name rest here he ih =>
    rw [FileSystem.walk, h.entry?_eq he (by simp)]
    exact ih hw
  | case8 budget name rest here content' he hrest =>
    cases hw
    intro other found
    rw [FileSystem.walk, h.gone]
    simp only
    split <;> exact fun hfound => by cases hfound
  | case10 budget name rest here target he hlast => simp at hlast
  | case12 name rest here target he hgoes budget ih =>
    rw [FileSystem.walk, h.entry?_eq he (by simp)]
    simp only
    rw [if_neg hgoes]
    exact ih hw
  | case2 | case5 | case6 | case9 | case11 => cases hw

end Deleted

end EventScripts.FileSystem
