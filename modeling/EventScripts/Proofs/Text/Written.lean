import EventScripts.Text.Blank
import EventScripts.Text.Lines
/-!
# Text that is written line by line

What has been written is read again: the lines of a text that consists of lines,
each with its end, are those lines, and blanks in front of something that does
not begin with one are its margin.
-/

namespace EventScripts.Text

/-! ## Lines -/

/-- The text of lines, each of them with its end. -/
def unlines (lines : List (List Char)) : List Char := lines.flatMap (· ++ ['\n'])

theorem linesFrom_append : ∀ {cs : List Char}, '\n' ∉ cs → ∀ line rest : List Char,
    linesFrom line (cs ++ rest) = linesFrom (cs.reverse ++ line) rest
  | [], _, _, _ => rfl
  | c :: cs, h, line, rest => by
    obtain ⟨hc, hcs⟩ := not_or.1 (mt List.mem_cons.2 h)
    rw [List.cons_append, linesFrom, if_neg (Ne.symm hc), linesFrom_append hcs, List.reverse_cons,
      List.append_assoc]
    rfl

theorem lines_append {cs : List Char} (h : '\n' ∉ cs) (rest : List Char) :
    lines (cs ++ '\n' :: rest) = dropReturn cs :: lines rest := by
  rw [lines, linesFrom_append h, linesFrom, if_pos rfl, List.append_nil, List.reverse_reverse]
  rfl

theorem dropReturn_of_getLast? {cs : List Char} (h : cs.getLast? ≠ some '\r') :
    dropReturn cs = cs := by
  unfold dropReturn
  split
  · next front hreverse =>
    rw [List.getLast?_eq_head?_reverse, hreverse] at h
    exact absurd rfl h
  · rfl

/-- A line without its end is read as it is, unless there is nothing in it. -/
theorem lines_of_not_mem {cs : List Char} (h : '\n' ∉ cs) (hne : cs ≠ []) : lines cs = [cs] := by
  have hlast := linesFrom_append h [] []
  rw [List.append_nil, List.append_nil] at hlast
  rw [lines, hlast, linesFrom, if_neg (by simpa using hne), List.reverse_reverse]

/-- Lines that are written are read without their ends, and so is what stands behind them. -/
theorem lines_unlines_append : ∀ {ls : List (List Char)}, (∀ l ∈ ls, '\n' ∉ l) →
    ∀ rest : List Char, lines (unlines ls ++ rest) = ls.map dropReturn ++ lines rest
  | [], _, _ => rfl
  | l :: ls, h, rest => by
    obtain ⟨hl, hls⟩ := List.forall_mem_cons.1 h
    rw [unlines, List.flatMap_cons, List.append_assoc, List.append_assoc]
    exact (lines_append hl _).trans (congrArg (dropReturn l :: ·) (lines_unlines_append hls rest))

/-- **Lines that are written are read again**, as long as they do not hold the ends of others. -/
theorem lines_unlines {ls : List (List Char)} (h : ∀ l ∈ ls, '\n' ∉ l ∧ l.getLast? ≠ some '\r') :
    lines (unlines ls) = ls := by
  have hlines := lines_unlines_append (fun l hl => (h l hl).1) []
  rw [List.append_nil] at hlines
  rw [hlines, List.map_congr_left fun l hl => dropReturn_of_getLast? (h l hl).2, List.map_id']
  exact List.append_nil ls

/-! ## Blanks at the ends -/

theorem trimStart_of_head? {cs : List Char} (h : ∀ c ∈ cs.head?, isBlank c = false) :
    trimStart cs = cs := by
  cases cs with
  | nil => rfl
  | cons c cs =>
    have hc := h c rfl
    simp [trimStart, hc]

theorem trimEnd_of_getLast? {cs : List Char} (h : ∀ c ∈ cs.getLast?, isBlank c = false) :
    trimEnd cs = cs := by
  have hstart : trimStart cs.reverse = cs.reverse :=
    trimStart_of_head? fun c hc => h c (by rwa [List.head?_reverse] at hc)
  rw [trimEnd, ← trimStart, hstart, List.reverse_reverse]

/-- Blanks at the end make no difference to what is left of a text. -/
theorem trimEnd_append {blanks : List Char} (h : ∀ c ∈ blanks, isBlank c = true)
    (cs : List Char) : trimEnd (cs ++ blanks) = trimEnd cs := by
  rw [trimEnd, List.reverse_append,
    List.dropWhile_append_of_pos fun c hc => h c (List.mem_reverse.1 hc), trimEnd]

/-- Nothing is trimmed from a text that has no blank at its ends. -/
theorem trim_eq_self_iff {cs : List Char} : trim cs = cs ↔
    (∀ c ∈ cs.head?, isBlank c = false) ∧ ∀ c ∈ cs.getLast?, isBlank c = false := by
  have hkept : ∀ ds : List Char, ∀ c ∈ (ds.dropWhile isBlank).head?, isBlank c = false := by
    intro ds c hc
    have hnot := List.head?_dropWhile_not isBlank ds
    rwa [Option.mem_def.1 hc] at hnot
  constructor
  · intro h
    refine ⟨fun c hc => hkept (trimEnd cs) c ?_, fun c hc => hkept cs.reverse c ?_⟩
    · rw [← h] at hc
      exact hc
    · -- what is left of the end of the text ends as the text does
      have hsuffix : trim cs <:+ trimEnd cs := List.dropWhile_suffix isBlank
      rw [h] at hsuffix
      obtain ⟨front, hfront⟩ := hsuffix
      rw [← List.getLast?_reverse, ← trimEnd, ← hfront, List.getLast?_append, Option.mem_def.1 hc]
      rfl
  · rintro ⟨hhead, hlast⟩
    rw [trim, trimEnd_of_getLast? hlast, trimStart_of_head? hhead]

/-- Blanks in front of something else are its margin. -/
theorem margin_append {margin cs : List Char} (hblank : ∀ c ∈ margin, isBlank c = true)
    (hhead : ∀ c ∈ cs.head?, isBlank c = false) :
    Text.margin (margin ++ cs) = margin ∧ trimStart (margin ++ cs) = cs := by
  constructor
  · rw [Text.margin, List.takeWhile_append_of_pos hblank]
    cases cs with
    | nil => exact List.append_nil margin
    | cons c cs =>
      have hc := hhead c rfl
      rw [List.takeWhile_cons_of_neg (by simp [hc]), List.append_nil]
  · rw [trimStart, List.dropWhile_append_of_pos hblank]
    exact trimStart_of_head? hhead

end EventScripts.Text
