import EventScripts.Path.Marker
import EventScripts.Proofs.Path.Components
import EventScripts.Proofs.Path.Key
/-!
# Markers as components

The marker of a script and the script of a marker, read off the components of
the path. Main statements: a script without a dash is the script of its marker
(`components_enabled_disabled`), no two such scripts share a marker
(`components_eq_of_disabled`), and a path with a dash is never its own script
(`components_enabled_ne`). A marker stands in the directory of its script, which is
written in the same way (`parent?_disabled`).
-/

namespace EventScripts.Path

def hasDash (name : String) : Bool := name.toList.head? == some '-'

/-- The components of the marker of a path with the given components. -/
def marked (cs : List Component) : List Component :=
  match cs.getLast? with
  | some (.name name) => if hasDash name then cs else cs.dropLast ++ [.name ("-" ++ name)]
  | _ => cs

theorem fileName?_of_components {a b : Path} (h : a.components = b.components) :
    a.fileName? = b.fileName? := by
  simp [fileName?, h]

theorem isDisabled_of_components {a b : Path} (h : a.components = b.components) :
    a.isDisabled = b.isDisabled := by
  simp [isDisabled, fileName?_of_components h]

theorem isDisabled_eq_true_iff {path : Path} :
    path.isDisabled = true ↔ ∃ name, path.fileName? = some name ∧ hasDash name = true := by
  cases h : path.fileName? <;> simp [isDisabled, hasDash, h]

theorem toList_dash (name : String) : ("-" ++ name).toList = '-' :: name.toList := by
  simp

theorem ofPiece?_dash (cs : List Char) :
    Component.ofPiece? ('-' :: cs) = some (.name (String.ofList ('-' :: cs))) := by
  cases cs <;> simp [Component.ofPiece?]

theorem noSlash_dash {cs : List Char} : NoSlash ('-' :: cs) ↔ NoSlash cs := by
  simp [NoSlash, isSlash]

theorem lead_eq_of_ofPiece? {part : List Char} {name : String} {alone : Bool}
    (h : Component.ofPiece? part = some (.name name)) : lead part alone = [.name name] := by
  unfold lead
  split
  · simp [Component.ofPiece?] at h
  · simp [Component.ofPiece?] at h
  · simp [h]

/-- A file name that counts as a name takes the place of the last component. -/
theorem components_withFileName_of_name {path : Path} {name other : String}
    (h : path.fileName? = some name) (hs : NoSlash other.toList)
    (ho : Component.ofPiece? other.toList = some (.name other)) :
    (path.withFileName other).components = path.components.dropLast ++ [.name other] := by
  rw [components_withFileName h hs, lead_eq_of_ofPiece? ho, ho]
  simp

/-- Another name in the same directory, of which nothing is written anew. -/
theorem parent?_withFileName {path : Path} {name other : String} (h : path.fileName? = some name)
    (hs : NoSlash other.toList) (ho : Component.ofPiece? other.toList = some (.name other)) :
    (path.withFileName other).parent? = path.parent? := by
  have hname : (path.withFileName other).fileName? = some other := by
    rw [fileName?_eq_some, components_withFileName_of_name h hs ho, List.getLast?_concat]
  obtain ⟨first, rest, hp, ⟨ht, -, -⟩ | ⟨mid, ht, -, -⟩⟩ := pieces_of_fileName? h
  · have hpieces : piecesOf (path.withFileName other).text.toList = [other.toList] := by
      rw [withFileName_of_alone h hs hp ht]
      exact Text.pieces_of_no_sep hs
    rw [parent?_of_alone h hp ht, parent?_of_alone hname hpieces rfl]
  · have hpieces := pieces_withFileName h hs hp ht
    -- the other name counts, so that the parts before it are the same as without the old one
    have hidle : isIdle other.toList = false := by
      rw [Bool.eq_false_iff, ne_eq, ← ofPiece?_eq_none_iff, ho]
      nofun
    have hkept : (mid.rdropWhile isIdle ++ [other.toList]).rdropWhile isIdle
        = mid.rdropWhile isIdle ++ [other.toList] :=
      List.rdropWhile_concat_neg _ _ _ (by simp [hidle])
    rw [parent?_of_behind h hp ht, parent?_of_behind hname hpieces hkept,
      List.rdropWhile_idempotent]

theorem hasDash_of_isDisabled {path : Path} {name : String} (hf : path.fileName? = some name) :
    hasDash name = path.isDisabled := by
  simp [isDisabled, hasDash, hf]

/-- A file name with a dash in front is one that counts. -/
theorem marker_name {path : Path} {name : String} (hf : path.fileName? = some name) :
    NoSlash ("-" ++ name).toList ∧
      Component.ofPiece? ("-" ++ name).toList = some (.name ("-" ++ name)) := by
  refine ⟨?_, ?_⟩
  · rw [toList_dash, noSlash_dash]
    exact noSlash_of_fileName? hf
  · rw [toList_dash, ofPiece?_dash, ← toList_dash, String.ofList_toList]

theorem disabled_of_name {path : Path} {name : String} (hf : path.fileName? = some name)
    (hd : path.isDisabled = false) : path.disabled = path.withFileName ("-" ++ name) := by
  unfold disabled
  rw [hf]
  exact if_neg (Bool.eq_false_iff.1 ((hasDash_of_isDisabled hf).trans hd))

theorem disabled_of_isDisabled {path : Path} (h : path.isDisabled = true) :
    path.disabled = path := by
  obtain ⟨name, hf, hd⟩ := isDisabled_eq_true_iff.1 h
  unfold disabled
  rw [hf]
  exact if_pos hd

theorem disabled_of_no_name {path : Path} (hf : path.fileName? = none) :
    path.disabled = path := by
  simp [disabled, hf]

/-- The marker of a script that has a file name and no dash. -/
theorem components_disabled_of_name {path : Path} {name : String} (hf : path.fileName? = some name)
    (hd : path.isDisabled = false) :
    path.disabled.components = path.components.dropLast ++ [.name ("-" ++ name)] := by
  rw [disabled_of_name hf hd]
  exact components_withFileName_of_name hf (marker_name hf).1 (marker_name hf).2

theorem components_disabled (path : Path) : path.disabled.components = marked path.components := by
  unfold marked
  cases hf : path.fileName? with
  | none =>
    have h : ∀ n, path.components.getLast? ≠ some (.name n) := by
      intro n hn
      rw [fileName?_eq_some.2 hn] at hf
      cases hf
    rw [disabled_of_no_name hf]
    split
    · next n hn => exact absurd hn (h n)
    · rfl
  | some name =>
    simp only [fileName?_eq_some.1 hf, hasDash_of_isDisabled hf]
    cases hd : path.isDisabled with
    | true => rw [disabled_of_isDisabled hd, if_pos rfl]
    | false => rw [components_disabled_of_name hf hd, if_neg Bool.false_ne_true]

theorem components_disabled_congr {a b : Path} (h : a.components = b.components) :
    a.disabled.components = b.disabled.components := by
  rw [components_disabled, components_disabled, h]

theorem enabled_of_no_name {path : Path} (hf : path.fileName? = none) : path.enabled = path := by
  simp [enabled, hf]

/-- The file name of a marker, if it is not the path itself. -/
theorem fileName?_disabled {path : Path} {name : String} (hf : path.fileName? = some name)
    (hd : path.isDisabled = false) : path.disabled.fileName? = some ("-" ++ name) := by
  rw [fileName?_eq_some, components_disabled_of_name hf hd, List.getLast?_concat]

theorem components_eq_dropLast_concat {path : Path} {name : String}
    (hf : path.fileName? = some name) :
    path.components = path.components.dropLast ++ [.name name] := by
  obtain ⟨front, hc⟩ := List.getLast?_eq_some_iff.1 (fileName?_eq_some.1 hf)
  rw [hc, List.dropLast_concat]

/-- **No two scripts without a dash share a marker.** -/
theorem components_eq_of_disabled {a b : Path} (ha : a.isDisabled = false)
    (hb : b.isDisabled = false) (h : a.disabled.components = b.disabled.components) :
    a.components = b.components := by
  have marker : ∀ {p q : Path} {name : String}, p.fileName? = some name → p.isDisabled = false →
      q.isDisabled = false → p.disabled.components = q.disabled.components →
      q.fileName? ≠ none := by
    intro p q name hp hpd hqd hpq hq
    -- the marker of `p` has a dash, and `q`, its own marker, has none
    have hdash : q.isDisabled = true := by
      have hm : q.disabled = q := disabled_of_no_name hq
      rw [hm] at hpq
      rw [← isDisabled_of_components hpq]
      exact isDisabled_eq_true_iff.2 ⟨_, fileName?_disabled hp hpd, by simp [hasDash]⟩
    rw [hdash] at hqd
    cases hqd
  cases hfa : a.fileName? with
  | none =>
    cases hfb : b.fileName? with
    | none => rwa [disabled_of_no_name hfa, disabled_of_no_name hfb] at h
    | some n => exact absurd hfa (marker hfb hb ha h.symm)
  | some n =>
    cases hfb : b.fileName? with
    | none => exact absurd hfb (marker hfa ha hb h)
    | some m =>
      rw [components_disabled_of_name hfa ha, components_disabled_of_name hfb hb] at h
      obtain ⟨hd, hn⟩ := List.append_inj' h rfl
      have hnm : n = m := by simpa using hn
      rw [components_eq_dropLast_concat hfa, components_eq_dropLast_concat hfb, hd, hnm]

/-- The script of a marker whose dash is followed by a name. -/
theorem components_enabled_of_name {path : Path} {name : String}
    (hf : path.fileName? = some ("-" ++ name))
    (hn : Component.ofPiece? name.toList = some (.name name)) :
    path.enabled.components = path.components.dropLast ++ [.name name] := by
  have he : path.enabled = path.withFileName name := by
    unfold enabled
    rw [hf]
    simp
  rw [he]
  refine components_withFileName_of_name hf ?_ hn
  rw [← noSlash_dash, ← toList_dash]
  exact noSlash_of_fileName? hf

/-- **A script without a dash is the script of its marker**, however the marker is written. -/
theorem components_enabled_disabled {path marker : Path} (hd : path.isDisabled = false)
    (hm : marker.components = path.disabled.components) :
    marker.enabled.components = path.components := by
  cases hf : path.fileName? with
  | none =>
    rw [disabled_of_no_name hf] at hm
    rw [enabled_of_no_name (by rw [fileName?_of_components hm, hf]), hm]
  | some name =>
    have hfm : marker.fileName? = some ("-" ++ name) := by
      rw [fileName?_of_components hm, fileName?_disabled hf hd]
    rw [components_enabled_of_name hfm (ofPiece?_of_fileName? hf), hm,
      components_disabled_of_name hf hd, List.dropLast_concat, ← components_eq_dropLast_concat hf]

/-- **A path with a dash is never its own script.** -/
theorem components_enabled_ne {path : Path} (hd : path.isDisabled = true) :
    path.enabled.components ≠ path.components := by
  obtain ⟨name, hf, hdash⟩ := isDisabled_eq_true_iff.1 hd
  obtain ⟨rest, hrest⟩ : ∃ rest, name.toList = '-' :: rest := by
    simp only [hasDash, beq_iff_eq] at hdash
    cases hl : name.toList with
    | nil => rw [hl] at hdash; cases hdash
    | cons c cs => rw [hl] at hdash; exact ⟨cs, by simpa using hdash⟩
  have he : path.enabled = path.withFileName (String.ofList rest) := by
    unfold enabled
    rw [hf]
    simp [hrest]
  have hs : NoSlash (String.ofList rest).toList := by
    rw [String.toList_ofList, ← noSlash_dash, ← hrest]
    exact noSlash_of_fileName? hf
  rw [he, components_withFileName hf hs]
  -- what takes the place of the name is shorter than it, or no name, or nothing
  intro h
  rw [components_eq_dropLast_concat hf, List.dropLast_concat] at h
  have htail := List.append_cancel_left h
  have hname : ∀ {part : List Char} {n : String},
      Component.ofPiece? part = some (.name n) → part = n.toList := ofPiece?_eq_name
  have hshort : rest ≠ name.toList := by
    rw [hrest]
    exact fun h => List.cons_ne_self _ _ h.symm
  split at htail
  · have hlead : (lead (String.ofList rest).toList true).getLast? = some (.name name) := by
      rw [htail]
      rfl
    exact hshort (by simpa using hname (lead_of_name hlead).1)
  · cases hp : Component.ofPiece? (String.ofList rest).toList with
    | none => rw [hp] at htail; cases htail
    | some c =>
      rw [hp] at htail
      have hc : c = .name name := by simpa using htail
      rw [hc] at hp
      exact hshort (by simpa using hname hp)

/-! ## Laws -/

/-- A marker is in the directory of its script. -/
theorem parent?_disabled (path : Path) : path.disabled.parent? = path.parent? := by
  cases hf : path.fileName? with
  | none => rw [disabled_of_no_name hf]
  | some name =>
    cases hd : path.isDisabled with
    | true => rw [disabled_of_isDisabled hd]
    | false =>
      rw [disabled_of_name hf hd]
      exact parent?_withFileName hf (marker_name hf).1 (marker_name hf).2

theorem isDisabled_disabled_iff (path : Path) :
    path.disabled.isDisabled = true ↔ path.fileName?.isSome = true := by
  cases hf : path.fileName? with
  | none =>
    rw [disabled_of_no_name hf, isDisabled, hf]
    rfl
  | some name =>
    refine ⟨fun _ => rfl, fun _ => ?_⟩
    cases hd : path.isDisabled with
    | true => rw [disabled_of_isDisabled hd, hd]
    | false => exact isDisabled_eq_true_iff.2 ⟨_, fileName?_disabled hf hd, by simp [hasDash]⟩

theorem disabled_disabled (path : Path) : path.disabled.disabled = path.disabled := by
  cases hf : path.fileName? with
  | none => rw [disabled_of_no_name hf, disabled_of_no_name hf]
  | some name =>
    exact disabled_of_isDisabled ((isDisabled_disabled_iff path).2 (by rw [hf]; rfl))

theorem same_enabled_disabled_iff (path : Path) :
    path.disabled.enabled.same path = true ↔ path.isDisabled = false := by
  rw [same_iff]
  cases hd : path.isDisabled with
  | true =>
    rw [disabled_of_isDisabled hd]
    exact iff_of_false (components_enabled_ne hd) Bool.noConfusion
  | false => exact iff_of_true (components_enabled_disabled hd rfl) rfl

theorem same_disabled_iff {path other : Path} (h : path.isDisabled = other.isDisabled) :
    path.disabled.same other.disabled = true ↔ path.same other = true := by
  rw [same_iff, same_iff]
  refine ⟨fun hc => ?_, components_disabled_congr⟩
  cases hd : path.isDisabled with
  | true => rwa [disabled_of_isDisabled hd, disabled_of_isDisabled (h.symm.trans hd)] at hc
  | false => exact components_eq_of_disabled hd (h.symm.trans hd) hc

/-- What is to be said of a path and its marker. -/
structure MarkerLaws (path : Path) : Prop where
  /-- A marker is its own marker, and in no other spelling. -/
  idempotent : path.disabled.disabled = path.disabled
  /-- The marker has a dash exactly if there is a file name to put it before. -/
  marks : path.disabled.isDisabled = true ↔ path.fileName?.isSome = true
  /-- The marker has the same parent, written in the same way. -/
  beside : path.disabled.parent? = path.parent?
  /-- Exactly the paths without a dash are the scripts of their markers. -/
  undone : path.disabled.enabled.same path = true ↔ path.isDisabled = false
  /-- Two scripts share a marker only if they are the same, and so do two markers. -/
  injective (other : Path) (h : path.isDisabled = other.isDisabled) :
    path.disabled.same other.disabled = true ↔ path.same other = true

/-- **The laws of markers** hold of every path, in whatever spelling. -/
theorem marker_laws (path : Path) : MarkerLaws path where
  idempotent := disabled_disabled path
  marks := isDisabled_disabled_iff path
  beside := parent?_disabled path
  undone := same_enabled_disabled_iff path
  injective _ h := same_disabled_iff h

/-- The script of a marker may be spelled in another way than the script was. -/
example : (⟨"d//a.sk/"⟩ : Path).disabled = ⟨"d/-a.sk"⟩ ∧
    (⟨"d//a.sk/"⟩ : Path).disabled.enabled = ⟨"d/a.sk"⟩ := by decide +kernel

end EventScripts.Path
