import EventScripts.Proofs.Path.Components
/-!
# Absolute paths made of names

The paths that a resolution gives are written as a slash before each name of a
location. This module says which components such a path has, what extending it
by a name makes of it, how the parent of an absolute path is spelled, and how a
path with another name in the same directory is.
-/

namespace EventScripts.Path

/-- A text that is one component of a path, and a name. -/
structure Proper (name : String) : Prop where
  reads : Component.ofPiece? name.toList = some (.name name)
  noSlash : NoSlash name.toList

/-- The components of the absolute path with the given names and nothing else. -/
def fromRoot (names : List String) : List Component := .root :: names.map .name

theorem fromRoot_inj {names more : List String} : fromRoot names = fromRoot more ↔ names = more := by
  constructor
  · intro h
    have hmap : names.map Component.name = more.map Component.name := (List.cons.inj h).2
    exact List.map_injective_iff.2 (fun _ _ he => Component.name.inj he) hmap
  · rintro rfl
    rfl

theorem fromRoot_concat (names : List String) (name : String) :
    fromRoot (names ++ [name]) = fromRoot names ++ [.name name] := by
  simp [fromRoot]

/-! ## The root -/

theorem ofPiece?_ne_root (part : List Char) : Component.ofPiece? part ≠ some .root := by
  unfold Component.ofPiece?
  split <;> simp

/-- A first part that is not empty is one component, and not the root. -/
theorem exists_lead {first : List Char} (h : first ≠ []) :
    ∃ c, c ≠ .root ∧ ∀ alone, lead first alone = [c] := by
  unfold lead
  split
  · exact absurd rfl h
  · exact ⟨.here, nofun, fun _ => rfl⟩
  · next hdot =>
    cases hp : Component.ofPiece? first with
    | none =>
      have hidle := ofPiece?_eq_none_iff.1 hp
      rw [isIdle, Bool.or_eq_true, List.isEmpty_iff, beq_iff_eq] at hidle
      exact absurd hidle (not_or.2 ⟨h, hdot⟩)
    | some c =>
      refine ⟨c, ?_, fun _ => rfl⟩
      rintro rfl
      exact ofPiece?_ne_root first hp

theorem isAbsolute_iff {path : Path} :
    path.isAbsolute = true ↔ path.components.head? = some .root := by
  cases hp : piecesOf path.text.toList with
  | nil => exact absurd hp (Text.pieces_ne_nil _)
  | cons first rest =>
    rw [isAbsolute_of_pieces hp, components, hp, componentsOf_cons]
    by_cases hfirst : first = []
    · subst hfirst
      cases rest <;> simp [lead]
    · obtain ⟨c, hroot, hc⟩ := exists_lead hfirst
      simp [hc, hroot, hfirst]

theorem isAbsolute_of_components {path : Path} {names : List String}
    (h : path.components = fromRoot names) : path.isAbsolute = true := by
  rw [isAbsolute_iff, h]
  rfl

/-- The parts of an absolute path are an empty one and others. -/
theorem pieces_of_isAbsolute {path : Path} (h : path.isAbsolute = true) :
    ∃ rest, rest ≠ [] ∧ piecesOf path.text.toList = [] :: rest ∧
      path.components = .root :: rest.filterMap Component.ofPiece? := by
  cases hp : piecesOf path.text.toList with
  | nil => exact absurd hp (Text.pieces_ne_nil _)
  | cons first rest =>
    rw [isAbsolute_of_pieces hp, Bool.and_eq_true, List.isEmpty_iff, Bool.not_eq_true',
      List.isEmpty_eq_false_iff] at h
    obtain ⟨rfl, hrest⟩ := h
    refine ⟨rest, hrest, rfl, ?_⟩
    cases rest with
    | nil => exact absurd rfl hrest
    | cons part rest => rw [components, hp, componentsOf_cons]; rfl

theorem proper_of_mem_pieces {path : Path} {part : List Char} {name : String}
    (hpart : part ∈ piecesOf path.text.toList) (h : Component.ofPiece? part = some (.name name)) :
    Proper name := by
  obtain rfl := ofPiece?_eq_name h
  exact ⟨h, Text.no_sep_of_mem_pieces hpart⟩

/-- The names in a path are proper. -/
theorem proper_of_components {path : Path} {names : List String}
    (h : path.components = fromRoot names) : ∀ name ∈ names, Proper name := by
  intro name hname
  obtain ⟨rest, -, hp, hc⟩ := pieces_of_isAbsolute (isAbsolute_of_components h)
  have hmem : Component.name name ∈ rest.filterMap Component.ofPiece? := by
    have hrest : rest.filterMap Component.ofPiece? = names.map .name :=
      (List.cons.inj (hc.symm.trans h)).2
    rw [hrest]
    exact List.mem_map_of_mem hname
  obtain ⟨part, hpart, hreads⟩ := List.mem_filterMap.1 hmem
  exact proper_of_mem_pieces (by rw [hp]; simp [hpart]) hreads

/-! ## Appending a name -/

/-- A path that is not empty is only extended when a name is appended. -/
theorem exists_text_join {path : Path} {name : String} (h : Proper name)
    (hne : path.text.toList ≠ []) :
    ∃ more, (path.join ⟨name⟩).text.toList = path.text.toList ++ more := by
  unfold join
  rw [isAbsolute_of_noSlash h.noSlash, if_neg Bool.false_ne_true]
  split
  · next hnil => exact absurd (List.getLast?_eq_none_iff.1 hnil) hne
  · exact ⟨name.toList, String.toList_append⟩
  · exact ⟨'/' :: name.toList, by simp [String.toList_append]⟩

/-- The parts of a path that is extended by a name: an empty one at the end is left out. -/
theorem pieces_join {path : Path} {name : String} (h : Proper name) (hne : path.text.toList ≠ []) :
    ∃ parts, piecesOf (path.join ⟨name⟩).text.toList = parts ++ [name.toList] ∧
      (piecesOf path.text.toList = parts ∨ piecesOf path.text.toList = parts ++ [[]]) := by
  have hname : Text.pieces isSlash name.toList = [name.toList] := Text.pieces_of_no_sep h.noSlash
  unfold join
  rw [isAbsolute_of_noSlash h.noSlash, if_neg Bool.false_ne_true]
  split
  · next hnil => exact absurd (List.getLast?_eq_none_iff.1 hnil) hne
  · next hslash =>
    obtain ⟨front, hfront⟩ := List.getLast?_eq_some_iff.1 hslash
    refine ⟨piecesOf front, ?_, Or.inr ?_⟩
    · rw [String.toList_append, hfront, List.append_assoc, piecesOf]
      exact (Text.pieces_append_sep rfl front name.toList).trans (congrArg _ hname)
    · rw [hfront, piecesOf]
      exact Text.pieces_append_sep rfl front []
  · refine ⟨piecesOf path.text.toList, ?_, Or.inl rfl⟩
    have htext : (path.text ++ "/" ++ name).toList = path.text.toList ++ '/' :: name.toList := by
      simp [String.toList_append]
    rw [htext, piecesOf]
    exact (Text.pieces_append_sep rfl _ name.toList).trans (congrArg _ hname)

/-- A text without parts but an empty one is empty. -/
theorem eq_nil_of_pieces {cs : List Char} (h : piecesOf cs = [[]]) : cs = [] := by
  cases cs with
  | nil => rfl
  | cons c cs =>
    rw [piecesOf, Text.pieces] at h
    split at h
    · exact absurd (List.cons.inj h).2 (Text.pieces_ne_nil cs)
    · split at h <;> cases h

/-- One more part comes last, and the first does not stand alone. -/
theorem componentsOf_concat (first : List Char) (rest : List (List Char)) (part : List Char) :
    componentsOf (first :: rest ++ [part]) = lead first false ++ rest.filterMap Component.ofPiece?
      ++ (Component.ofPiece? part).toList := by
  have hbehind : (rest ++ [part]).isEmpty = false := by simp
  rw [List.cons_append, componentsOf_cons, hbehind, List.filterMap_append, List.append_assoc]
  cases h : Component.ofPiece? part <;> simp [h]

/-- **A name that is appended** is the last component. -/
theorem components_join {path : Path} {name : String} (h : Proper name) :
    (path.join ⟨name⟩).components = path.components ++ [.name name] := by
  by_cases hne : path.text.toList = []
  · have hjoin : path.join ⟨name⟩ = ⟨name⟩ := by
      simp [join, isAbsolute_of_noSlash h.noSlash, hne]
    have hpieces : piecesOf name.toList = [name.toList] := Text.pieces_of_no_sep h.noSlash
    have hlead : lead name.toList true = [.name name] := by
      have hreads := h.reads
      unfold lead
      split
      · next heq => simp [heq, Component.ofPiece?] at hreads
      · next heq => simp [heq, Component.ofPiece?] at hreads
      · rw [hreads]
        rfl
    have hempty : path.components = [] := by rw [components, hne]; rfl
    rw [hjoin, hempty, components, hpieces, componentsOf_cons, List.isEmpty_nil, hlead]
    rfl
  · obtain ⟨parts, hjoin, hparts⟩ := pieces_join h hne
    cases parts with
    | nil =>
      rcases hparts with hp | hp
      · exact absurd hp (Text.pieces_ne_nil _)
      · exact absurd (eq_nil_of_pieces hp) hne
    | cons first rest =>
      rw [components, components, hjoin, componentsOf_concat, h.reads]
      rcases hparts with hp | hp
      · -- a first part that stands alone is not empty
        have hlead : lead first rest.isEmpty = lead first false := by
          by_cases hfirst : first = []
          · have hrest : rest ≠ [] := by
              rintro rfl
              exact hne (eq_nil_of_pieces (hfirst ▸ hp))
            rw [List.isEmpty_eq_false_iff.2 hrest]
          · obtain ⟨c, -, hc⟩ := exists_lead hfirst
            rw [hc, hc]
        rw [hp, componentsOf_cons, hlead]
        rfl
      · rw [hp, componentsOf_concat, show Component.ofPiece? [] = none from rfl, Option.toList_none,
          List.append_nil]
        rfl

theorem fileName?_join {path : Path} {name : String} (h : Proper name) :
    (path.join ⟨name⟩).fileName? = some name := by
  rw [fileName?_eq_some, components_join h, List.getLast?_concat]

theorem isAbsolute_join_name {path : Path} {name : String} (h : Proper name)
    (hne : path.text.toList ≠ []) : (path.join ⟨name⟩).isAbsolute = path.isAbsolute := by
  obtain ⟨more, hmore⟩ := exists_text_join h hne
  rw [isAbsolute, isAbsolute, hmore, List.head?_append_of_ne_nil _ hne]

/-! ## Putting names together -/

theorem components_ofPieces {first : List Char} {mid : List (List Char)}
    (hs : ∀ part ∈ first :: mid, NoSlash part) :
    (ofPieces first.isEmpty (first :: mid)).components
      = lead first false ++ mid.filterMap Component.ofPiece? := by
  by_cases hroot : first = [] ∧ mid = []
  · obtain ⟨rfl, rfl⟩ := hroot
    rfl
  · have hp : ofPieces first.isEmpty (first :: mid)
        = ⟨String.ofList (['/'].intercalate (first :: mid))⟩ := by
      unfold ofPieces
      rw [if_neg]
      intro h
      simp only [Bool.and_eq_true, beq_iff_eq, List.cons.injEq] at h
      exact hroot h.2
    have hlead : lead first mid.isEmpty = lead first false := by
      by_cases hfirst : first = []
      · have hmid : mid ≠ [] := fun h => hroot ⟨hfirst, h⟩
        rw [List.isEmpty_eq_false_iff.2 hmid]
      · obtain ⟨c, -, hc⟩ := exists_lead hfirst
        rw [hc, hc]
    rw [hp, components, String.toList_ofList, piecesOf_intercalate (by simp) hs, componentsOf_cons,
      hlead]

theorem intercalate_cons (first : List Char) : ∀ parts : List (List Char),
    ['/'].intercalate (first :: parts) = first ++ parts.flatMap ('/' :: ·)
  | [] => by simp [List.intercalate_singleton]
  | part :: parts => by
    rw [List.intercalate_cons_cons, intercalate_cons part parts]
    simp

/-- The path of a location is its names, with an empty part before them. -/
theorem ofNames_eq (names : List String) :
    ofNames names
      = ofPieces ([] : List Char).isEmpty ([] :: names.map String.toList) := by
  cases names with
  | nil => rfl
  | cons name names =>
    have htext : (String.join ((name :: names).map ("/" ++ ·))).toList
        = ['/'].intercalate ([] :: (name :: names).map String.toList) := by
      rw [intercalate_cons, String.toList_join, List.flatMap_map, List.flatMap_map]
      simp
    rw [ofNames, ofPieces, if_neg (by simp), if_neg (by simp), ← htext, String.ofList_toList]

variable {names : List String} {name : String}

theorem filterMap_names (h : ∀ name ∈ names, Proper name) :
    (names.map String.toList).filterMap Component.ofPiece? = names.map .name := by
  rw [List.filterMap_map, ← List.filterMap_eq_map]
  exact List.filterMap_congr fun name hname => (h name hname).reads

theorem noSlash_names (h : ∀ name ∈ names, Proper name) :
    ∀ part ∈ [] :: names.map String.toList, NoSlash part := by
  intro part hpart
  rcases List.mem_cons.1 hpart with rfl | hpart
  · exact fun _ hc => absurd hc List.not_mem_nil
  · obtain ⟨name, hname, rfl⟩ := List.mem_map.1 hpart
    exact (h name hname).noSlash

/-- **The path of a location** has the components that it is made of. -/
theorem components_ofNames (h : ∀ name ∈ names, Proper name) :
    (ofNames names).components = fromRoot names := by
  rw [ofNames_eq, components_ofPieces (noSlash_names h), filterMap_names h]
  rfl

/-- One more name comes last. -/
theorem components_ofNames_join (h : ∀ name ∈ names, Proper name) (hname : Proper name) :
    ((ofNames names).join ⟨name⟩).components = fromRoot (names ++ [name]) := by
  rw [components_join hname, components_ofNames h, fromRoot_concat]

theorem isAbsolute_ofNames (names : List String) : (ofNames names).isAbsolute = true := by
  cases names with
  | nil => rfl
  | cons name names => simp [ofNames, isAbsolute, String.toList_join]

theorem isAbsolute_join {path : Path} (h : path.isAbsolute = true) (other : Path) :
    (path.join other).isAbsolute = true := by
  unfold join
  split
  · next ho => exact ho
  · rw [isAbsolute] at h
    split
    · next hnil => simp [List.getLast?_eq_none_iff.1 hnil] at h
    · cases ht : path.text.toList <;> simp_all [isAbsolute]
    · cases ht : path.text.toList <;> simp_all [isAbsolute]

/-! ## The parent -/

/-- The parent of an absolute path has all its components but the last. -/
theorem exists_parent {path : Path} (habs : path.isAbsolute = true)
    (h : path.fileName? = some name) :
    ∃ parent, path.parent? = some parent ∧
      path.components = parent.components ++ [.name name] := by
  obtain ⟨first, rest, hp, ⟨-, -, hc⟩ | ⟨mid, ht, -, hc⟩⟩ := pieces_of_fileName? h
  · rw [isAbsolute_iff, hc] at habs
    cases habs
  · refine ⟨_, parent?_of_behind h hp ht, ?_⟩
    rw [components_ofPieces (noSlash_of_left hp ht), filterMap_rdropWhile, hc]

/-! ## Other names in a directory -/

theorem text_ofNames (h : names ≠ []) : (ofNames names).text = String.join (names.map ("/" ++ ·)) := by
  rw [ofNames, if_neg (by simpa using h)]

/-- The parts of the path of a location are its names, behind an empty one. -/
theorem pieces_ofNames (h : ∀ name ∈ names, Proper name) (hne : names ≠ []) :
    piecesOf (ofNames names).text.toList = [] :: names.map String.toList := by
  have htext : ofNames names
      = ⟨String.ofList (['/'].intercalate ([] :: names.map String.toList))⟩ := by
    rw [ofNames_eq, ofPieces, if_neg (by simp [hne])]
  rw [htext, String.toList_ofList, piecesOf_intercalate (by simp) (noSlash_names h)]

/-- Names are not idle. -/
theorem rdropWhile_names (h : ∀ name ∈ names, Proper name) :
    (names.map String.toList).rdropWhile isIdle = names.map String.toList := by
  rw [List.rdropWhile_eq_self_iff]
  intro hne
  obtain ⟨n, hn, hlast⟩ := List.mem_map.1 (List.getLast_mem hne)
  rw [← hlast, ← ofPiece?_eq_none_iff, (h n hn).reads]
  nofun

theorem fileName?_ofNames (h : ∀ n ∈ names ++ [name], Proper n) :
    (ofNames (names ++ [name])).fileName? = some name := by
  rw [fileName?_eq_some, components_ofNames h, fromRoot_concat, List.getLast?_concat]

theorem parent?_ofNames (h : ∀ n ∈ names ++ [name], Proper n) :
    (ofNames (names ++ [name])).parent? = some (ofNames names) := by
  have hfront : ∀ n ∈ names, Proper n := fun n hn => h n (by simp [hn])
  have hp := pieces_ofNames h (by simp)
  have hrest := rdropWhile_names h
  rw [List.map_append, List.map_singleton] at hp hrest
  rw [parent?_of_behind (fileName?_ofNames h) hp hrest, rdropWhile_names hfront, ofNames_eq]

theorem join_ofNames {other : String} (h : ∀ n ∈ names, Proper n) (ho : NoSlash other.toList) :
    (ofNames names).join ⟨other⟩ = ofNames (names ++ [other]) := by
  have hrel : (Path.mk other).isAbsolute = false := isAbsolute_of_noSlash ho
  rcases List.eq_nil_or_concat' names with rfl | ⟨front, last, rfl⟩
  · simp [join, hrel, ofNames, String.join]
  · have hlast := h last (by simp)
    have hne : last.toList ≠ [] := by
      intro hnil
      have hreads := hlast.reads
      rw [hnil] at hreads
      cases hreads
    obtain ⟨c, hc⟩ : ∃ c, last.toList.getLast? = some c := ⟨_, List.getLast?_eq_some_getLast hne⟩
    have hslash : c ≠ '/' := by
      rintro rfl
      cases hlast.noSlash '/' (List.mem_of_getLast? hc)
    have hend : (ofNames (front ++ [last])).text.toList.getLast? = some c := by
      rw [text_ofNames (by simp), String.toList_join]
      simp [List.getLast?_append, List.getLast?_cons_of_ne_nil hne, hc]
    have htext : (ofNames (front ++ [last])).text ++ "/" ++ other
        = (ofNames (front ++ [last] ++ [other])).text := by
      rw [text_ofNames (by simp), text_ofNames (by simp)]
      simp [← String.toList_inj]
    rw [join, hrel, if_neg (by simp), hend]
    split
    · next heq => cases heq
    · next heq => exact absurd (Option.some.inj heq) hslash
    · exact congrArg Path.mk htext

/-- **Another file name** in the same directory. -/
theorem withFileName_ofNames {other : String} (h : ∀ n ∈ names ++ [name], Proper n)
    (ho : NoSlash other.toList) :
    (ofNames (names ++ [name])).withFileName other = ofNames (names ++ [other]) := by
  have hfront : ∀ n ∈ names, Proper n := fun n hn => h n (by simp [hn])
  rw [withFileName, fileName?_ofNames h, parent?_ofNames h]
  exact join_ofNames hfront ho

end EventScripts.Path
