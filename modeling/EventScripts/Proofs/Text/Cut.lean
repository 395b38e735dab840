import EventScripts.Text.Cut
/-!
# Cutting where nothing else can be meant

A text is cut into pieces at each of the characters that are picked. A longer
separator, which begins with a character, is not found in a text without that
character, whatever stands behind it. That is enough to tell where words are cut
that have blanks in between.
-/

namespace EventScripts.Text

/-! ## Pieces -/

section Pieces

variable {sep : Char → Bool}

theorem pieces_ne_nil (cs : List Char) : pieces sep cs ≠ [] := by
  cases cs with
  | nil => simp [pieces]
  | cons c cs =>
    simp only [pieces]
    split
    · simp
    · split <;> simp

theorem pieces_of_no_sep {cs : List Char} (h : ∀ c ∈ cs, sep c = false) : pieces sep cs = [cs] := by
  induction cs with
  | nil => rfl
  | cons c cs ih =>
    have hc : sep c = false := h c (by simp)
    rw [pieces, hc, ih fun d hd => h d (by simp [hd])]
    rfl

theorem pieces_append_sep {c : Char} (hc : sep c = true) (front rest : List Char) :
    pieces sep (front ++ c :: rest) = pieces sep front ++ pieces sep rest := by
  induction front with
  | nil => simp [pieces, hc]
  | cons d front ih =>
    by_cases hd : sep d = true
    · simp [pieces, hd, ih]
    · simp only [List.cons_append, pieces, hd, ih]
      cases hp : pieces sep front with
      | nil => exact absurd hp (pieces_ne_nil front)
      | cons w ws => simp

/-- No part holds a separator. -/
theorem no_sep_of_mem_pieces {cs part : List Char} (h : part ∈ pieces sep cs) :
    ∀ c ∈ part, sep c = false := by
  induction cs generalizing part with
  | nil => simp_all [pieces]
  | cons d cs ih =>
    by_cases hd : sep d = true
    · simp only [pieces, hd, if_true, List.mem_cons] at h
      rcases h with rfl | h
      · simp
      · exact ih h
    · simp only [pieces, hd] at h
      cases hp : pieces sep cs with
      | nil => exact absurd hp (pieces_ne_nil cs)
      | cons w ws =>
        rw [hp] at h ih
        simp only [Bool.false_eq_true, if_false, List.mem_cons] at h
        rcases h with rfl | h
        · intro c hc
          rcases List.mem_cons.1 hc with rfl | hc
          · simpa using hd
          · exact ih (by simp) c hc
        · exact ih (by simp [h])

end Pieces

/-! ## The first occurrence -/

theorem stripPrefix?_append (ps rest : List Char) : stripPrefix? ps (ps ++ rest) = some rest :=
  stripPrefix?_eq_some.2 rfl

theorem stripPrefix?_eq_none {ps cs : List Char} (h : ¬ps <+: cs) : stripPrefix? ps cs = none := by
  cases hs : stripPrefix? ps cs with
  | none => rfl
  | some rest => exact absurd ⟨rest, (stripPrefix?_eq_some.1 hs).symm⟩ h

/-- Where the separator does not begin, it is looked for further on. -/
theorem cut?_cons {sep cs : List Char} {c : Char} (h : ¬sep <+: c :: cs) :
    cut? sep (c :: cs) = (cut? sep cs).map fun (front, rest) => (c :: front, rest) := by
  rw [cut?, stripPrefix?_eq_none h]

theorem cut?_prefix (s : Char) (sep rest : List Char) :
    cut? (s :: sep) (s :: sep ++ rest) = some ([], rest) := by
  have hfirst : stripPrefix? (s :: sep) (s :: (sep ++ rest)) = some rest :=
    stripPrefix?_append (s :: sep) rest
  rw [List.cons_append, cut?, hfirst]

variable {s : Char} {sep : List Char}

theorem not_prefix_of_ne {c : Char} (h : s ≠ c) (cs : List Char) : ¬s :: sep <+: c :: cs :=
  fun hp => h (List.cons_prefix_cons.1 hp).1

/-- The separator does not begin among characters other than its first one. -/
theorem cut?_append : ∀ {front : List Char}, s ∉ front → ∀ cs : List Char,
    cut? (s :: sep) (front ++ cs)
      = (cut? (s :: sep) cs).map fun (before, rest) => (front ++ before, rest)
  | [], _, cs => by
    rw [List.nil_append]
    cases cut? (s :: sep) cs <;> rfl
  | c :: front, h, cs => by
    obtain ⟨hc, hfront⟩ := not_or.1 (mt List.mem_cons.2 h)
    rw [List.cons_append, cut?_cons (not_prefix_of_ne hc _), cut?_append hfront, Option.map_map]
    rfl

theorem cut?_of_not_mem {front : List Char} (h : s ∉ front) : cut? (s :: sep) front = none := by
  have hnone : cut? (s :: sep) (front ++ []) = none := cut?_append h []
  rwa [List.append_nil] at hnone

/-- **The separator is found** where it stands behind a text without its first character. -/
theorem cut?_found {front : List Char} (h : s ∉ front) (rest : List Char) :
    cut? (s :: sep) (front ++ (s :: sep ++ rest)) = some (front, rest) := by
  rw [cut?_append h, cut?_prefix, Option.map_some]
  simp only [List.append_nil]

/-! ## The last character -/

theorem stripLast?_concat (c : Char) (front : List Char) :
    stripLast? c (front ++ [c]) = some front := by
  simp [stripLast?]

theorem stripLast?_eq_none {c : Char} {cs : List Char} (h : cs.getLast? ≠ some c) :
    stripLast? c cs = none := by
  rw [List.getLast?_eq_head?_reverse] at h
  unfold stripLast?
  split
  · rfl
  · next d front hreverse =>
    rw [hreverse] at h
    exact if_neg fun hd => h (congrArg some hd)

/-! ## Splitting -/

/-- Texts are told by what stands in front of the first of a character, and behind it. -/
theorem append_cons_inj : ∀ {front other rest more : List Char}, s ∉ front → s ∉ other →
    front ++ s :: rest = other ++ s :: more → front = other ∧ rest = more
  | [], [], _, _, _, _, h => ⟨rfl, (List.cons.inj h).2⟩
  | [], c :: other, _, _, _, ho, h =>
    absurd (List.cons.inj h).1 (not_or.1 (mt List.mem_cons.2 ho)).1
  | c :: front, [], _, _, hf, _, h =>
    absurd (List.cons.inj h).1.symm (not_or.1 (mt List.mem_cons.2 hf)).1
  | c :: front, d :: other, rest, more, hf, ho, h => by
    obtain ⟨rfl, htail⟩ := List.cons.inj h
    obtain ⟨rfl, hrest⟩ := append_cons_inj (not_or.1 (mt List.mem_cons.2 hf)).2
      (not_or.1 (mt List.mem_cons.2 ho)).2 htail
    exact ⟨rfl, hrest⟩

/-- **Texts with a separator in between are split again**, if none holds its first character. -/
theorem splitOn_intercalate : ∀ {parts : List (List Char)}, parts ≠ [] →
    (∀ part ∈ parts, s ∉ part) → splitOn (s :: sep) ((s :: sep).intercalate parts) = parts
  | [], hne, _ => absurd rfl hne
  | [part], _, h => by
    have hpart := h part List.mem_cons_self
    rw [List.intercalate_singleton, splitOn, cut?_of_not_mem hpart]
  | part :: next :: parts, _, h => by
    obtain ⟨hpart, hrest⟩ := List.forall_mem_cons.1 h
    have ih := splitOn_intercalate (List.cons_ne_nil next parts) hrest
    have hcut : cut? (s :: sep) ((s :: sep).intercalate (part :: next :: parts))
        = some (part, (s :: sep).intercalate (next :: parts)) := by
      rw [List.intercalate_cons_cons, List.append_assoc, cut?_found hpart]
    rw [splitOn, hcut]
    simp only [List.cons_ne_nil, dite_false, ih]

end EventScripts.Text
