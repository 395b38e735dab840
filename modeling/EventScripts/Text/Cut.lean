import EventScripts.Text.Blank
/-!
# Cutting text at separators

A text is cut at single characters (`pieces`, `words`), at the first place
where a longer separator occurs (`cut?`), or at every such place (`splitOn`).
Occurrences of a separator are taken from the left and do not overlap.

The headers and console lines of `SPEC_FULL.md` §10.6 (Runner) are cut in this way.
-/

namespace EventScripts.Text

/-- The pieces between the characters that `sep` picks; one more than there are of these. -/
def pieces (sep : Char → Bool) : List Char → List (List Char)
  | [] => [[]]
  | c :: cs =>
    if sep c then [] :: pieces sep cs
    else
      match pieces sep cs with
      | [] => [[c]]
      | w :: ws => (c :: w) :: ws

/-- The longest pieces that hold no separator and are not empty. -/
def wordsBy (sep : Char → Bool) (cs : List Char) : List (List Char) :=
  (pieces sep cs).filter (!·.isEmpty)

/-- The words of a text, blanks being what stands between them. -/
def words (cs : List Char) : List (List Char) := wordsBy isBlank cs

/-- What follows `pre` in a text that starts with it. -/
def stripPrefix? : List Char → List Char → Option (List Char)
  | [], cs => some cs
  | _ :: _, [] => none
  | p :: ps, c :: cs => if p = c then stripPrefix? ps cs else none

/-- What precedes the last character of a text that ends in `last`. -/
def stripLast? (last : Char) (cs : List Char) : Option (List Char) :=
  match cs.reverse with
  | [] => none
  | c :: front => if c = last then some front.reverse else none

/-- The parts before and after the first occurrence of `sep`. -/
def cut? (sep : List Char) : List Char → Option (List Char × List Char)
  | [] => if sep.isEmpty then some ([], []) else none
  | c :: cs =>
    match stripPrefix? sep (c :: cs) with
    | some rest => some ([], rest)
    | none => (cut? sep cs).map fun (front, rest) => (c :: front, rest)

theorem stripPrefix?_eq_some {ps cs rest : List Char} :
    stripPrefix? ps cs = some rest ↔ cs = ps ++ rest := by
  induction ps generalizing cs with
  | nil => simp [stripPrefix?, eq_comm]
  | cons p ps ih =>
    cases cs with
    | nil => simp [stripPrefix?]
    | cons c cs =>
      by_cases h : p = c
      · subst h; simp [stripPrefix?, ih]
      · simp [stripPrefix?, h, Ne.symm h]

theorem eq_of_cut? {sep cs front rest : List Char} (h : cut? sep cs = some (front, rest)) :
    cs = front ++ sep ++ rest := by
  induction cs generalizing front rest with
  | nil =>
    simp only [cut?] at h
    split at h
    · cases h; simp_all
    · cases h
  | cons c cs ih =>
    simp only [cut?] at h
    split at h
    · next r hr =>
      cases h
      simpa using stripPrefix?_eq_some.1 hr
    · next =>
      obtain ⟨⟨f, r⟩, hc, he⟩ := Option.map_eq_some_iff.1 h
      cases he
      simp [ih hc]

/-- The parts between the occurrences of a separator that is not empty. -/
def splitOn (sep : List Char) (cs : List Char) : List (List Char) :=
  match _ : cut? sep cs with
  | none => [cs]
  | some (front, rest) => if _ : sep = [] then [cs] else front :: splitOn sep rest
termination_by cs.length
decreasing_by
  have hcut := eq_of_cut? ‹cut? sep cs = some (front, rest)›
  have : 0 < sep.length := List.length_pos_iff.2 ‹sep ≠ []›
  subst hcut
  simp only [List.length_append]
  omega

end EventScripts.Text
