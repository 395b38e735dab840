import EventScripts.Proofs.FileSystem.Canonical
/-!
# Going down into directories

The path of an entry is the path of its directory and a name, so it is resolved
along the way to the directory and one step further (`Opens.exists_way`). A step
into a subdirectory uses something up: an entry that lies below where one is, or
a link of those that a path may follow. So no descent goes on for ever, though
links may lead back up (`Opens.exists_join`).
-/

namespace EventScripts.FileSystem

/-- The entries have names that a path can name. -/
def ProperNames (files : FileSystem) : Prop := ∀ e ∈ files.entries, ∀ name ∈ e.1, Path.Proper name

variable {files : FileSystem} {here there beyond at_ : Location} {budget left last : Nat}
  {path behind : List Step}

/-! ## The steps of a path and a name -/

/-- A part in front of others stands for the same steps in front of any. -/
theorem exists_stepsOfPieces_cons (part : List Char) :
    ∃ first, ∀ rest, rest ≠ [] → stepsOfPieces (part :: rest) = first ++ stepsOfPieces rest := by
  by_cases hnil : part = []
  · refine ⟨[], fun rest hrest => ?_⟩
    subst hnil
    cases rest with
    | nil => exact absurd rfl hrest
    | cons next rest => rfl
  · by_cases hdot : part = ['.']
    · exact ⟨[.stay], fun rest _ => by rw [hdot]; rfl⟩
    · by_cases hup : part = ['.', '.']
      · exact ⟨[.up], fun rest _ => by rw [hup]; rfl⟩
      · refine ⟨[.down (String.ofList part)], fun rest _ => ?_⟩
        rw [stepsOfPieces]
        · rfl
        all_goals simp_all

theorem exists_stepsOfPieces_concat {name : String} (h : Path.Proper name) :
    ∀ parts : List (List Char), ∃ front,
      stepsOfPieces (parts ++ [name.toList]) = front ++ [.down name]
  | [] => by
    have hname : ∀ n ∈ [name], Path.Proper n := by simpa using h
    exact ⟨[], stepsOfPieces_names hname⟩
  | part :: parts => by
    obtain ⟨front, hfront⟩ := exists_stepsOfPieces_concat h parts
    obtain ⟨first, hfirst⟩ := exists_stepsOfPieces_cons part
    refine ⟨first ++ front, ?_⟩
    rw [List.cons_append, hfirst _ (by simp), hfront, List.append_assoc]

/-- **The steps of a path and a name** are as many as matter for the path, and one down. -/
theorem exists_steps_join {p : Path} {name : String} (h : Path.Proper name)
    (hne : p.text.isEmpty = false) : ∃ front, steps (p.join ⟨name⟩) = front ++ [.down name] ∧
      front.filterMap Step.component? = (steps p).filterMap Step.component? := by
  have htext : p.text.toList ≠ [] := by simpa using hne
  obtain ⟨more, hmore⟩ := Path.exists_text_join h htext
  obtain ⟨parts, hparts, hp⟩ := Path.pieces_join h htext
  obtain ⟨front, hfront⟩ := exists_stepsOfPieces_concat h parts
  refine ⟨front, ?_, ?_⟩
  · rw [steps, if_neg (by simp [hmore, htext]), hparts, hfront]
  · have hjoined := congrArg (List.filterMap Step.component?) hfront
    rw [filterMap_stepsOfPieces, List.filterMap_append, List.filterMap_append] at hjoined
    have hlast : [name.toList].filterMap Component.ofPiece? = [Component.name name] := by
      simp [h.reads]
    rw [hlast] at hjoined
    have hparts' := (List.append_inj' hjoined rfl).1
    rw [steps, if_neg (by simp [htext]), filterMap_stepsOfPieces, ← hparts']
    rcases hp with hp | hp
    · rw [hp]
    · rw [hp, List.filterMap_append]
      exact (List.append_nil _).symm

/-! ## Ways to directories -/

theorem Leads.append (h : files.Leads budget path here left there)
    (hb : files.Leads left behind there last beyond) :
    files.Leads budget (path ++ behind) here last beyond := by
  induction h with
  | nil => exact hb
  | stay _ ih => exact (ih hb).stay
  | up _ ih => exact (ih hb).up
  | down he _ ih => exact (ih hb).down he
  | follow he _ ih =>
    refine .follow he ?_
    have hrest := ih hb
    rwa [List.append_assoc] at hrest

theorem Leads.le (h : files.Leads budget path here left there) : left ≤ budget := by
  induction h with
  | nil => exact Nat.le_refl _
  | stay _ ih | up _ ih | down _ _ ih => exact ih
  | follow _ _ ih => exact Nat.le_succ_of_le ih

/-- What is resolved to a directory leads there. -/
theorem exists_leads_of_directory
    (hw : files.walk true budget path here = .ok (.found at_ .directory)) :
    ∃ left, files.Leads budget path here left at_ := by
  fun_induction FileSystem.walk files true budget path here with
  | case1 budget here entry he =>
    cases hw
    exact ⟨budget, .nil budget _⟩
  | case3 budget rest here ih => exact (ih hw).imp fun _ h => h.stay
  | case4 budget rest here ih => exact (ih hw).imp fun _ h => h.up
  | case7 budget name rest here he ih => exact (ih hw).imp fun _ h => h.down he
  | case12 name rest here target he _ budget ih => exact (ih hw).imp fun _ h => .follow he h
  | case10 budget name rest here target he hlast => simp at hlast
  | case2 | case5 | case6 | case8 | case9 | case11 => cases hw

/-! ## What is used up -/

theorem mem_entries_of_eq_some {entry : Entry} (hne : at_ ≠ []) (he : files.entry? at_ = some entry) :
    (at_, entry) ∈ files.entries := by
  rw [entry?_of_ne files hne] at he
  obtain ⟨front, behind, hsplit, -⟩ := List.lookup_eq_some_iff.1 he
  simp [hsplit]

/-- Whether the first location lies below the second. -/
def isBelow (at_ above : Location) : Bool := above.isPrefixOf at_ && at_ != above

/-- How many entries lie below a location. -/
def countBelow (files : FileSystem) (at_ : Location) : Nat :=
  files.entries.countP fun e => isBelow e.1 at_

/-- How often one can go down, at most, with a number of links that may still be followed. -/
def reserve (files : FileSystem) (left : Nat) (at_ : Location) : Nat :=
  left * (files.entries.length + 1) + files.countBelow at_

theorem countBelow_le (files : FileSystem) (at_ : Location) :
    files.countBelow at_ ≤ files.entries.length := List.countP_le_length

/-- An entry itself and what lies below it lie below where it stands. -/
theorem countBelow_lt {name : String} {entry : Entry}
    (he : files.entry? (at_ ++ [name]) = some entry) :
    files.countBelow (at_ ++ [name]) < files.countBelow at_ := by
  have hself : isBelow (at_ ++ [name]) at_ = true := by simp [isBelow]
  have hbelow : ∀ l, isBelow l (at_ ++ [name]) = true → isBelow l at_ = true := by
    intro l hl
    simp only [isBelow, Bool.and_eq_true, List.isPrefixOf_iff_prefix, bne_iff_ne, ne_eq] at hl ⊢
    refine ⟨(List.prefix_append at_ [name]).trans hl.1, ?_⟩
    rintro rfl
    have hlength := hl.1.length_le
    simp only [List.length_append, List.length_singleton] at hlength
    omega
  have hcount : ∀ entries : List (Location × Entry),
      entries.countP (fun e => isBelow e.1 (at_ ++ [name]))
        + entries.countP (fun e => e.1 == at_ ++ [name])
        ≤ entries.countP fun e => isBelow e.1 at_ := by
    intro entries
    induction entries with
    | nil => exact Nat.le_refl _
    | cons e entries ih =>
      simp only [List.countP_cons]
      by_cases heq : e.1 = at_ ++ [name]
      · have hout : isBelow e.1 (at_ ++ [name]) = false := by simp [isBelow, heq]
        rw [hout, heq, hself]
        simp
        omega
      · cases hin : isBelow e.1 (at_ ++ [name]) with
        | true => rw [hbelow e.1 hin]; simp [heq]; omega
        | false => simp [heq]; omega
  have hone : 0 < files.entries.countP fun e => e.1 == at_ ++ [name] :=
    List.countP_pos_iff.2 ⟨_, mem_entries_of_eq_some (by simp) he, by simp⟩
  have hall := hcount files.entries
  unfold countBelow
  omega

/-- A step down uses something up. -/
theorem Leads.reserve_lt {name : String}
    (h : files.Leads left [.down name] at_ last there) :
    files.reserve last there < files.reserve left at_ := by
  cases h with
  | down he hrest =>
    cases hrest
    exact Nat.add_lt_add_left (countBelow_lt he) _
  | @follow budget _ _ _ _ _ target he hrest =>
    have hless : last * (files.entries.length + 1) ≤ budget * (files.entries.length + 1) :=
      Nat.mul_le_mul_right _ hrest.le
    have hbelow := files.countBelow_le there
    rw [reserve, reserve, Nat.succ_mul]
    omega

/-! ## Directories that are opened -/

/-- A path leads to a directory, and so many of the links that it may follow are left. -/
structure Opens (files : FileSystem) (p : Path) (left : Nat) (at_ : Location) : Prop where
  text : p.text.isEmpty = false
  leads : files.Leads maxLinks (steps p) (if p.isAbsolute then [] else files.workingDirectory) left at_
  directory : files.entry? at_ = some .directory

variable {p : Path} {name : String}

theorem exists_opens (h : files.find p = .ok (at_, .directory)) : ∃ left, files.Opens p left at_ := by
  obtain ⟨htext, hw⟩ := find_eq_ok.1 h
  obtain ⟨left, hleads⟩ := exists_leads_of_directory hw
  exact ⟨left, htext, hleads, entry?_of_walk hw⟩

/-- The way to an entry is the way to its directory, and one step. -/
theorem Opens.exists_way (h : files.Opens p left at_) (hname : Path.Proper name) :
    (p.join ⟨name⟩).text.isEmpty = false ∧ ∃ front, steps (p.join ⟨name⟩) = front ++ [.down name] ∧
      files.Leads maxLinks front (if (p.join ⟨name⟩).isAbsolute then [] else files.workingDirectory)
        left at_ := by
  have htext : p.text.toList ≠ [] := by simpa using h.text
  obtain ⟨more, hmore⟩ := Path.exists_text_join hname htext
  obtain ⟨front, hsteps, hfront⟩ := exists_steps_join hname h.text
  refine ⟨?_, front, hsteps, ?_⟩
  · rw [String.isEmpty_eq_false_iff, ne_eq, ← String.toList_eq_nil_iff, hmore]
    simp [htext]
  · rw [Path.isAbsolute_join_name hname htext]
    exact h.leads.congr hfront

/-- **A subdirectory is opened** with less in reserve. -/
theorem Opens.exists_join (h : files.Opens p left at_) (hname : Path.Proper name)
    (hfind : files.find (p.join ⟨name⟩) = .ok (there, .directory)) :
    ∃ last, files.Opens (p.join ⟨name⟩) last there ∧
      files.reserve last there < files.reserve left at_ := by
  obtain ⟨htext, front, hsteps, hleads⟩ := h.exists_way hname
  have hw := (find_eq_ok.1 hfind).2
  have hthere := entry?_of_walk hw
  rw [hsteps, hleads.walk_append (Or.inl rfl)] at hw
  obtain ⟨last, hstep⟩ := exists_leads_of_directory hw
  refine ⟨last, ⟨htext, ?_, hthere⟩, hstep.reserve_lt⟩
  rw [hsteps]
  exact hleads.append hstep

end EventScripts.FileSystem
