import EventScripts.Path.Basic
import EventScripts.Proofs.Text.Cut
import Mathlib.Data.List.DropRight
/-!
# Components of rewritten paths

What cutting a text into parts and putting parts together does to the
components of a path. The main statement is `components_withFileName`: giving a
path another file name keeps every component but the last, in whatever spelling
the path is written.
-/

namespace EventScripts

namespace Path

/-- A part that may stand between two slashes. -/
def NoSlash (part : List Char) : Prop := ∀ c ∈ part, isSlash c = false

/-- Parts that are put together with slashes are found again. -/
theorem piecesOf_intercalate : ∀ {parts : List (List Char)}, parts ≠ [] →
    (∀ part ∈ parts, NoSlash part) → piecesOf (['/'].intercalate parts) = parts
  | [], hne, _ => absurd rfl hne
  | [part], _, h => by
    rw [List.intercalate_singleton]
    exact Text.pieces_of_no_sep (h part (by simp))
  | part :: next :: rest, _, h => by
    have ih : piecesOf (['/'].intercalate (next :: rest)) = next :: rest :=
      piecesOf_intercalate (by simp) fun p hp => h p (by simp [hp])
    have hpart : piecesOf part = [part] := Text.pieces_of_no_sep (h part (by simp))
    rw [show ['/'].intercalate (part :: next :: rest)
      = part ++ '/' :: ['/'].intercalate (next :: rest) by simp [List.intercalate]]
    rw [piecesOf, Text.pieces_append_sep rfl]
    show piecesOf part ++ piecesOf _ = _
    rw [hpart, ih, List.singleton_append]

/-- What the first part of a text stands for; an empty one is the root if others follow. -/
def lead (first : List Char) (alone : Bool) : List Component :=
  match first with
  | [] => if alone then [] else [.root]
  | ['.'] => [.here]
  | _ => (Component.ofPiece? first).toList

theorem lead_of_name {first : List Char} {alone : Bool} {name : String}
    (h : (lead first alone).getLast? = some (.name name)) :
    Component.ofPiece? first = some (.name name) ∧ lead first alone = [.name name] := by
  match first with
  | [] => cases alone <;> simp [lead] at h
  | ['.'] => simp [lead] at h
  | c :: d :: cs =>
    cases hf : Component.ofPiece? (c :: d :: cs) <;> simp_all [lead]
  | [c] =>
    by_cases hc : c = '.'
    · subst hc; simp [lead] at h
    · cases hf : Component.ofPiece? [c] <;> simp_all [lead]

/-- Parts behind it or not, a part that is not empty counts. -/
theorem lead_ne_nil (first : List Char) : lead first false ≠ [] := by
  match first with
  | [] => simp [lead]
  | ['.'] => simp [lead]
  | c :: d :: cs =>
    cases hf : Component.ofPiece? (c :: d :: cs) <;> simp_all [lead, Component.ofPiece?]
    split at hf <;> simp_all
  | [c] =>
    by_cases hc : c = '.'
    · subst hc; simp [lead]
    · simp [lead, Component.ofPiece?, hc]

theorem componentsOf_cons (first : List Char) (rest : List (List Char)) :
    componentsOf (first :: rest)
      = lead first rest.isEmpty ++ rest.filterMap Component.ofPiece? := by
  unfold componentsOf
  split
  · simp_all
  · simp_all [lead]
  · next h =>
    cases h
    cases rest <;> simp_all [lead]
  · next h => cases h; simp [lead]
  · next hnil halone hroot hdot =>
    have h1 : first ≠ [] := by rintro rfl; exact hroot _ rfl
    have h2 : first ≠ ['.'] := by rintro rfl; exact hdot _ rfl
    have hlead : lead first rest.isEmpty = (Component.ofPiece? first).toList := by
      unfold lead
      split <;> simp_all
    rw [hlead]
    cases hp : Component.ofPiece? first <;> simp [hp]

theorem ofPiece?_eq_none_iff {part : List Char} :
    Component.ofPiece? part = none ↔ isIdle part = true := by
  unfold Component.ofPiece? isIdle
  split <;> simp_all

theorem filterMap_ofPiece?_of_idle {parts : List (List Char)}
    (h : ∀ part ∈ parts, isIdle part = true) : parts.filterMap Component.ofPiece? = [] := by
  rw [List.filterMap_eq_nil_iff]
  exact fun part hp => ofPiece?_eq_none_iff.2 (h part hp)

theorem dropIdle_cons (first : List Char) (rest : List (List Char)) :
    dropIdle (first :: rest) = first :: rest.rdropWhile isIdle := rfl

/-- Dropping idle parts at the end keeps the components. -/
theorem filterMap_rdropWhile (parts : List (List Char)) :
    (parts.rdropWhile isIdle).filterMap Component.ofPiece?
      = parts.filterMap Component.ofPiece? := by
  have h : parts.filterMap Component.ofPiece?
      = (parts.rdropWhile isIdle ++ parts.rtakeWhile isIdle).filterMap Component.ofPiece? := by
    rw [List.rdropWhile_append_rtakeWhile]
  have hidle : ∀ part ∈ parts.rtakeWhile isIdle, isIdle part = true :=
    fun part hp => List.mem_rtakeWhile_imp hp
  rw [h, List.filterMap_append, filterMap_ofPiece?_of_idle hidle, List.append_nil]

/-- A path starts at the root exactly if its first part is empty and others follow. -/
theorem isAbsolute_of_pieces {path : Path} {first : List Char} {rest : List (List Char)}
    (h : piecesOf path.text.toList = first :: rest) :
    path.isAbsolute = (first.isEmpty && !rest.isEmpty) := by
  unfold isAbsolute
  cases hc : path.text.toList with
  | nil =>
    rw [hc, piecesOf, Text.pieces] at h
    cases h
    rfl
  | cons c cs =>
    rw [hc, piecesOf, Text.pieces] at h
    by_cases hs : isSlash c = true
    · rw [if_pos hs] at h
      cases h
      have hc' : c = '/' := by simpa [isSlash] using hs
      have hne : (Text.pieces isSlash cs).isEmpty = false := by
        rw [List.isEmpty_eq_false_iff]
        exact Text.pieces_ne_nil cs
      simp [hc', hne]
    · rw [if_neg hs] at h
      have hc' : c ≠ '/' := by simpa [isSlash] using hs
      split at h
      · cases h; simp [hc']
      · cases h; simp [hc']

theorem isAbsolute_of_noSlash {name : String} (h : NoSlash name.toList) :
    (Path.mk name).isAbsolute = false := by
  have hp : piecesOf (Path.mk name).text.toList = [name.toList] := Text.pieces_of_no_sep h
  rw [isAbsolute_of_pieces hp]
  simp

/-- The last character of parts put together is that of the last part. -/
theorem getLast?_intercalate {last : List Char} (hl : last ≠ []) (front : List (List Char)) :
    (['/'].intercalate (front ++ [last])).getLast? = last.getLast? := by
  induction front with
  | nil => simp [List.intercalate_singleton]
  | cons part front ih =>
    cases front with
    | nil =>
      rw [List.singleton_append,
        show ['/'].intercalate [part, last] = part ++ '/' :: last by simp [List.intercalate]]
      rw [List.getLast?_append_of_ne_nil _ (by simp), List.getLast?_cons_of_ne_nil hl]
    | cons next front =>
      have hne : ['/'].intercalate (next :: front ++ [last]) ≠ [] := by
        intro h0
        rw [h0] at ih
        cases last with
        | nil => exact hl rfl
        | cons c cs => simp [List.getLast?_cons] at ih
      rw [show ['/'].intercalate (part :: next :: front ++ [last])
        = part ++ '/' :: ['/'].intercalate (next :: front ++ [last]) by simp [List.intercalate]]
      rw [List.getLast?_append_of_ne_nil _ (by simp), List.getLast?_cons_of_ne_nil hne, ih]

/-- The parts of a path that was put together from parts and extended by a name. -/
theorem pieces_ofPieces_join {first : List Char} {mid : List (List Char)} {name : String}
    (hs : ∀ part ∈ first :: mid, NoSlash part) (hm : ∀ h : mid ≠ [], mid.getLast h ≠ [])
    (hn : NoSlash name.toList) :
    piecesOf ((ofPieces first.isEmpty (first :: mid)).join ⟨name⟩).text.toList
      = first :: mid ++ [name.toList] := by
  have hname : Text.pieces isSlash name.toList = [name.toList] := Text.pieces_of_no_sep hn
  by_cases hroot : first = [] ∧ mid = []
  · obtain ⟨rfl, rfl⟩ := hroot
    have hj : (ofPieces ([] : List Char).isEmpty [[]]).join ⟨name⟩ = ⟨"/" ++ name⟩ := by
      simp [ofPieces, join, isAbsolute_of_noSlash hn]
    rw [hj]
    simp [piecesOf, Text.pieces, isSlash, hname]
  · -- the text ends in the last character of a part that is not empty, so a slash is put in
    have hp : ofPieces first.isEmpty (first :: mid)
        = ⟨String.ofList (['/'].intercalate (first :: mid))⟩ := by
      unfold ofPieces
      rw [if_neg]
      intro h
      simp only [Bool.and_eq_true, beq_iff_eq, List.cons.injEq] at h
      exact hroot h.2
    obtain ⟨front, last, hfl, hl⟩ : ∃ front last, first :: mid = front ++ [last] ∧ last ≠ [] := by
      rcases List.eq_nil_or_concat' mid with rfl | ⟨front, last, rfl⟩
      · exact ⟨[], first, rfl, fun h => hroot ⟨h, rfl⟩⟩
      · refine ⟨first :: front, last, by simp, ?_⟩
        simpa using hm (by simp)
    have hlast : NoSlash last := hs last (by rw [hfl]; simp)
    obtain ⟨c, hc⟩ : ∃ c, last.getLast? = some c := by
      cases last with
      | nil => exact absurd rfl hl
      | cons c cs => exact ⟨_, List.getLast?_cons⟩
    have hcs : c ≠ '/' := by
      have := hlast c (List.mem_of_getLast? hc)
      rintro rfl
      simp [isSlash] at this
    have hlastText : (['/'].intercalate (first :: mid)).getLast? = some c := by
      rw [hfl, getLast?_intercalate hl, hc]
    have hj : (ofPieces first.isEmpty (first :: mid)).join ⟨name⟩
        = ⟨String.ofList (['/'].intercalate (first :: mid)) ++ "/" ++ name⟩ := by
      rw [hp, join, isAbsolute_of_noSlash hn]
      simp only [Bool.false_eq_true, if_false, String.toList_ofList, hlastText]
    rw [hj]
    have ht : (String.ofList (['/'].intercalate (first :: mid)) ++ "/" ++ name).toList
        = ['/'].intercalate (first :: mid) ++ '/' :: name.toList := by
      simp
    rw [ht, piecesOf, Text.pieces_append_sep rfl, hname]
    rw [show Text.pieces isSlash _ = first :: mid from piecesOf_intercalate (by simp) hs]

/-! ## The file name -/

theorem fileName?_eq_some {path : Path} {name : String} :
    path.fileName? = some name ↔ path.components.getLast? = some (.name name) := by
  unfold fileName?
  split <;> simp_all

theorem ofPiece?_eq_name {part : List Char} {name : String}
    (h : Component.ofPiece? part = some (.name name)) : part = name.toList := by
  unfold Component.ofPiece? at h
  split at h <;> simp_all
  rw [← h, String.toList_ofList]

/-- Where the file name of a path stands among its parts: it is the only part that counts, or
the last one behind others. -/
theorem pieces_of_fileName? {path : Path} {name : String} (h : path.fileName? = some name) :
    ∃ first rest, piecesOf path.text.toList = first :: rest ∧
      ((rest.rdropWhile isIdle = [] ∧ Component.ofPiece? first = some (.name name) ∧
          path.components = [.name name]) ∨
        ∃ mid, rest.rdropWhile isIdle = mid ++ [name.toList] ∧
          Component.ofPiece? name.toList = some (.name name) ∧
          path.components
            = lead first false ++ mid.filterMap Component.ofPiece? ++ [.name name]) := by
  rw [fileName?_eq_some] at h
  cases hp : piecesOf path.text.toList with
  | nil => exact absurd hp (Text.pieces_ne_nil _)
  | cons first rest =>
    refine ⟨first, rest, rfl, ?_⟩
    have hc : path.components = lead first rest.isEmpty
        ++ (rest.rdropWhile isIdle).filterMap Component.ofPiece? := by
      rw [components, hp, componentsOf_cons, filterMap_rdropWhile]
    rcases List.eq_nil_or_concat' (rest.rdropWhile isIdle) with ht | ⟨mid, last, ht⟩
    · left
      rw [ht, List.filterMap_nil, List.append_nil] at hc
      have hl : (lead first rest.isEmpty).getLast? = some (.name name) := by rw [← hc]; exact h
      have hfirst := lead_of_name hl
      exact ⟨ht, hfirst.1, hc.trans hfirst.2⟩
    · right
      have hidle : isIdle last = false := by
        have hne : rest.rdropWhile isIdle ≠ [] := by simp [ht]
        have := List.rdropWhile_last_not isIdle rest hne
        simpa [ht] using this
      obtain ⟨c, hlast⟩ : ∃ c, Component.ofPiece? last = some c := by
        cases hl : Component.ofPiece? last with
        | none => rw [ofPiece?_eq_none_iff.1 hl] at hidle; cases hidle
        | some c => exact ⟨c, rfl⟩
      have hlead : lead first rest.isEmpty = lead first false := by
        cases rest with
        | nil => simp at ht
        | cons => rfl
      rw [ht, hlead, List.filterMap_append,
        show [last].filterMap Component.ofPiece? = [c] by simp [hlast], ← List.append_assoc] at hc
      have hcn : c = .name name := by
        rw [hc, List.getLast?_append] at h
        simpa using h
      subst hcn
      have hl := ofPiece?_eq_name hlast
      subst hl
      exact ⟨mid, ht, hlast, hc⟩

/-- A file name reads as itself. -/
theorem ofPiece?_of_fileName? {path : Path} {name : String} (h : path.fileName? = some name) :
    Component.ofPiece? name.toList = some (.name name) := by
  obtain ⟨first, rest, -, ⟨-, hf, -⟩ | ⟨mid, -, hl, -⟩⟩ := pieces_of_fileName? h
  · rw [← ofPiece?_eq_name hf]; exact hf
  · exact hl

/-- A file name holds no slash. -/
theorem noSlash_of_fileName? {path : Path} {name : String} (h : path.fileName? = some name) :
    NoSlash name.toList := by
  obtain ⟨first, rest, hp, ⟨-, hf, -⟩ | ⟨mid, ht, -, -⟩⟩ := pieces_of_fileName? h
  · rw [← ofPiece?_eq_name hf]
    have hm : first ∈ piecesOf path.text.toList := by rw [hp]; simp
    exact Text.no_sep_of_mem_pieces hm
  · have hm : name.toList ∈ rest :=
      (List.rdropWhile_prefix isIdle (l := rest)).subset (by rw [ht]; simp)
    have hm' : name.toList ∈ piecesOf path.text.toList := by rw [hp]; simp [hm]
    exact Text.no_sep_of_mem_pieces hm'

/-- The parent of a path that is one name is the empty path. -/
theorem parent?_of_alone {path : Path} {name : String} {first : List Char}
    {rest : List (List Char)} (h : path.fileName? = some name)
    (hp : piecesOf path.text.toList = first :: rest) (ht : rest.rdropWhile isIdle = []) :
    path.parent? = some ⟨""⟩ := by
  unfold parent?
  rw [fileName?_eq_some.1 h, hp]
  simp [dropIdle_cons, ht]

/-- The parent of another path is what stands before its last part, without idle parts. -/
theorem parent?_of_behind {path : Path} {name : String} {first last : List Char}
    {rest mid : List (List Char)} (h : path.fileName? = some name)
    (hp : piecesOf path.text.toList = first :: rest)
    (ht : rest.rdropWhile isIdle = mid ++ [last]) :
    path.parent? = some (ofPieces first.isEmpty (first :: mid.rdropWhile isIdle)) := by
  have hrest : rest.isEmpty = false := by
    cases rest with
    | nil => simp at ht
    | cons => rfl
  have hdrop : dropIdle (piecesOf path.text.toList) = first :: (mid ++ [last]) := by
    rw [hp, dropIdle_cons, ht]
  have habs : path.isAbsolute = first.isEmpty := by
    rw [isAbsolute_of_pieces hp, hrest]; simp
  unfold parent?
  rw [fileName?_eq_some.1 h, hdrop]
  cases mid with
  | nil => simp [habs, dropIdle_cons]
  | cons m mid =>
    have hd : (m :: (mid ++ [last])).dropLast = m :: mid := by
      rw [← List.cons_append, List.dropLast_concat]
    simp [habs, dropIdle_cons, hd]

/-- What is left of the parts of a path holds no slash. -/
theorem noSlash_of_left {path : Path} {first last : List Char} {rest mid : List (List Char)}
    (hp : piecesOf path.text.toList = first :: rest)
    (ht : rest.rdropWhile isIdle = mid ++ [last]) :
    ∀ part ∈ first :: mid.rdropWhile isIdle, NoSlash part := by
  intro part hpart
  suffices hm : part ∈ piecesOf path.text.toList from Text.no_sep_of_mem_pieces hm
  rw [hp]
  rcases List.mem_cons.1 hpart with rfl | hpart
  · simp
  · have hmid : part ∈ mid := (List.rdropWhile_prefix isIdle (l := mid)).subset hpart
    have hrest : part ∈ rest :=
      (List.rdropWhile_prefix isIdle (l := rest)).subset (by rw [ht]; simp [hmid])
    simp [hrest]

/-- A name that stood alone leaves nothing of the path but the other name. -/
theorem withFileName_of_alone {path : Path} {name other : String} {first : List Char}
    {rest : List (List Char)} (h : path.fileName? = some name) (ho : NoSlash other.toList)
    (hp : piecesOf path.text.toList = first :: rest) (ht : rest.rdropWhile isIdle = []) :
    path.withFileName other = ⟨other⟩ := by
  unfold withFileName
  rw [h, parent?_of_alone h hp ht]
  simp [join, isAbsolute_of_noSlash ho]

/-- Behind other parts, the other name comes after those that count. -/
theorem pieces_withFileName {path : Path} {name other : String} {first : List Char}
    {rest mid : List (List Char)} (h : path.fileName? = some name) (ho : NoSlash other.toList)
    (hp : piecesOf path.text.toList = first :: rest)
    (ht : rest.rdropWhile isIdle = mid ++ [name.toList]) :
    piecesOf (path.withFileName other).text.toList
      = first :: mid.rdropWhile isIdle ++ [other.toList] := by
  have hmid : ∀ hne : mid.rdropWhile isIdle ≠ [], (mid.rdropWhile isIdle).getLast hne ≠ [] := by
    intro hne h0
    have := List.rdropWhile_last_not isIdle mid hne
    rw [h0] at this
    simp [isIdle] at this
  have hw : path.withFileName other
      = (ofPieces first.isEmpty (first :: mid.rdropWhile isIdle)).join ⟨other⟩ := by
    unfold withFileName
    rw [h, parent?_of_behind h hp ht]
    rfl
  rw [hw, pieces_ofPieces_join (noSlash_of_left hp ht) hmid ho]

/-- **Another file name** takes the place of the last component and of nothing else. The name may
be one that does not count, or that stands for no name. -/
theorem components_withFileName {path : Path} {name : String} {other : String}
    (h : path.fileName? = some name) (ho : NoSlash other.toList) :
    (path.withFileName other).components = path.components.dropLast
      ++ (if path.components.dropLast = [] then lead other.toList true
        else (Component.ofPiece? other.toList).toList) := by
  obtain ⟨first, rest, hp, ⟨ht, hf, hc⟩ | ⟨mid, ht, hl, hc⟩⟩ := pieces_of_fileName? h
  · rw [withFileName_of_alone h ho hp ht, hc, components,
      show piecesOf (Path.mk other).text.toList = [other.toList] from Text.pieces_of_no_sep ho,
      componentsOf_cons]
    simp
  · have hfull : lead first false ++ mid.filterMap Component.ofPiece? ≠ [] := by
      simp [lead_ne_nil]
    rw [components, pieces_withFileName h ho hp ht, hc,
      List.dropLast_concat, if_neg hfull, List.cons_append, componentsOf_cons]
    rw [List.filterMap_append, filterMap_rdropWhile, List.append_assoc]
    have hbehind : (mid.rdropWhile isIdle ++ [other.toList]).isEmpty = false := by simp
    rw [hbehind]
    cases ho' : Component.ofPiece? other.toList <;> simp [ho']

end Path

end EventScripts
