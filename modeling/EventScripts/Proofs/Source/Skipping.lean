import EventScripts.Proofs.Source.Margins
/-!
# Skipped lines are inert

A line that is skipped and reported closes the sections that it is not indented
deeply enough for, and its blanks count for the character that indents. All the same it
has no part in what the text reads as: with every reported line replaced by blanks or a
comment, the text is read as the same forest, each node with the number that it had,
and nothing is reported any more (`parse_of_replaced`).

The sections that are open differ between the two runs. But the lines that have been
placed lay out the forest whatever became of the others, and these are the lines that
count once the others are replaced.
-/

namespace EventScripts

/-- Texts of lines are the lines with line feeds in between, and one at the end. -/
theorem Text.unlines_eq_intercalate : ∀ {raws : List (List Char)}, raws ≠ [] →
    unlines raws = ['\n'].intercalate raws ++ ['\n']
  | [], h => absurd rfl h
  | [raw], _ => by
    rw [List.intercalate_singleton, unlines, List.flatMap_singleton]
  | raw :: next :: raws, _ => by
    have ih := unlines_eq_intercalate (List.cons_ne_nil next raws)
    rw [List.intercalate_cons_cons, unlines, List.flatMap_cons, ← unlines, ih]
    simp only [List.append_assoc]

namespace Source

/-- Lines that are numbered from a number on, some of them replaced. -/
def replacedLines (replace : Nat → Bool) (pad : Nat → List Char) (first : Nat)
    (raws : List (List Char)) : List (List Char) :=
  (raws.zipIdx first).map fun (raw, number) => if replace number then pad number else raw

/-- The text with every line replaced that one of the problems is with. -/
def replaced (problems : List Problem) (pad : Nat → List Char) (text : String) : String :=
  String.ofList (['\n'].intercalate
    (replacedLines (fun number => problems.any (isOn number)) pad 1 (Text.rawLines text.toList)))

variable {replace : Nat → Bool} {pad : Nat → List Char}

/-! ## The lines that are left -/

theorem noFeed_of_mem_replacedLines (hpad : ∀ n, Padding (pad n)) {first : Nat}
    {raws : List (List Char)} (hraws : ∀ raw ∈ raws, '\n' ∉ raw) :
    ∀ raw ∈ replacedLines replace pad first raws, '\n' ∉ raw := by
  intro raw hmem
  obtain ⟨⟨old, number⟩, hold, rfl⟩ := List.mem_map.1 hmem
  simp only
  split
  · exact (hpad number).noFeed
  · exact hraws old (List.fst_mem_of_mem_zipIdx hold)

/-- Of the lines that count, those are left that have not been replaced. -/
theorem counting_replacedLines (hpad : ∀ n, Padding (pad n)) :
    ∀ (first : Nat) (raws : List (List Char)),
      counting first (replacedLines replace pad first raws)
        = (counting first raws).filter (!replace ·.number)
  | _, [] => rfl
  | first, raw :: raws => by
    have ih := counting_replacedLines hpad (first + 1) raws
    rw [replacedLines] at ih ⊢
    rw [List.zipIdx_cons, List.map_cons, counting_cons, counting_cons, List.filter_append, ih]
    refine congrArg (· ++ _) ?_
    have hnumber : ∀ line ∈ (line? first raw).toList, line.number = first := fun line hline =>
      (line?_eq_some (Option.mem_toList.1 hline)).1
    cases hreplace : replace first with
    | true =>
      simp only [hreplace, if_true, line?_of_padding (hpad first), Option.toList_none]
      refine (List.filter_eq_nil_iff.2 fun line hline => ?_).symm
      simp [hnumber line hline, hreplace]
    | false =>
      simp only [hreplace, Bool.false_eq_true, if_false]
      refine (List.filter_eq_self.2 fun line hline => ?_).symm
      simp [hnumber line hline, hreplace]

theorem significant_replaced (hpad : ∀ n, Padding (pad n)) (problems : List Problem)
    (text : String) : significant (replaced problems pad text).toList
      = (significant text.toList).filter (fun line => !problems.any (isOn line.number)) := by
  have hne : replacedLines (fun number => problems.any (isOn number)) pad 1
      (Text.rawLines text.toList) ≠ [] := by
    rw [replacedLines, Ne, List.map_eq_nil_iff, List.zipIdx_eq_nil_iff]
    exact Text.pieces_ne_nil _
  have hfeeds : ∀ raw ∈ replacedLines (fun number => problems.any (isOn number)) pad 1
      (Text.rawLines text.toList), '\n' ∉ raw :=
    noFeed_of_mem_replacedLines hpad fun _ => Text.noFeed_of_mem_rawLines
  rw [replaced, String.toList_ofList,
    significant_written hfeeds (.inr (Text.unlines_eq_intercalate hne).symm),
    counting_replacedLines hpad, significant_eq_counting]

/-! ## What is left is what had been placed -/

/-- Some lines kept in their order and the others dropped: a filter by number does the same. -/
theorem filter_eq_of_kept {kept dropped lines : List Line} (hsub : kept.Sublist lines)
    (hperm : (kept ++ dropped).Perm lines) (hnumbers : (lines.map (·.number)).Nodup) :
    lines.filter (fun line => decide (line.number ∉ dropped.map (·.number))) = kept := by
  have hapart := (hperm.map (·.number)).nodup_iff.2 hnumbers
  rw [List.map_append, List.nodup_append'] at hapart
  have hkept : kept.filter (fun line => decide (line.number ∉ dropped.map (·.number))) = kept :=
    List.filter_eq_self.2 fun line hline =>
      decide_eq_true (hapart.2.2 (List.mem_map_of_mem hline))
  have hdropped : dropped.filter (fun line => decide (line.number ∉ dropped.map (·.number))) = [] :=
    List.filter_eq_nil_iff.2 fun line hline hnot =>
      of_decide_eq_true hnot (List.mem_map_of_mem hline)
  have hsame := (hperm.filter fun line => decide (line.number ∉ dropped.map (·.number))).length_eq
  rw [List.filter_append, hkept, hdropped, List.append_nil] at hsame
  have hfilter := hsub.filter fun line => decide (line.number ∉ dropped.map (·.number))
  rw [hkept] at hfilter
  exact (hfilter.eq_of_length hsame).symm

/-- A text that is read is indented with one character. -/
theorem exists_indent_char {text : String} {skips : List Skip} {forest : List Node}
    (h : read text = ⟨skips, .ok forest⟩) :
    ∃ c, ∀ line ∈ significant text.toList, ∀ d ∈ line.margin, d = c := by
  rcases read_cases text with ⟨_, _, -, hu⟩ | ⟨_, _, _, _, -, -, hread, -⟩
  · cases hchars : margins (significant text.toList) with
    | nil =>
      refine ⟨' ', fun line hline d hd => ?_⟩
      have hmem : d ∈ margins (significant text.toList) := List.mem_flatMap.2 ⟨line, hline, hd⟩
      rw [hchars] at hmem
      cases hmem
    | cons c rest =>
      refine ⟨c, fun line hline d hd => hu d (List.mem_flatMap.2 ⟨line, hline, hd⟩) c ?_⟩
      rw [hchars]
      exact List.mem_cons_self
  · cases h.symm.trans hread

/-- A text is read without a fault if its lines are, and what is reported then is which of them have
been skipped. -/
theorem parse_eq_ok_iff {path : Path} {text : String} {problems : List Problem}
    {forest : List Node} : parse path text = (problems, .ok forest) ↔
      ∃ skips, read text = ⟨skips, .ok forest⟩ ∧ problems = skips.map (Skip.problem path) := by
  constructor
  · intro h
    unfold parse at h
    rcases hread : read text with ⟨skips, result⟩
    rw [hread] at h
    cases result with
    | error line => cases h
    | ok nodes =>
      cases h
      exact ⟨skips, rfl, rfl⟩
  · rintro ⟨skips, hread, rfl⟩
    rw [parse, hread]
    rfl

/-- **Skipped lines are inert**: replaced by lines of blanks or a comment, they are missed by
nobody. -/
theorem parse_of_replaced {path : Path} {text : String} {problems : List Problem}
    {forest : List Node} (h : parse path text = (problems, .ok forest))
    (hpad : ∀ n, Padding (pad n)) :
    parse path (replaced problems pad text) = ([], .ok forest) := by
  obtain ⟨skips, hread, rfl⟩ := parse_eq_ok_iff.1 h
  obtain ⟨placed, skipped, hlays, hsub, hperm, hskipped⟩ := exists_placed hread
  have hreported : ∀ number, (skips.map (Skip.problem path)).any (isOn number)
      = decide (number ∈ skipped.map (·.number)) := by
    intro number
    rw [← lines_of_skipped hskipped, Bool.eq_iff_iff, List.any_map, List.any_eq_true,
      decide_eq_true_eq, List.mem_map]
    exact exists_congr fun skip => and_congr_right fun _ => beq_iff_eq
  have hleft : significant (replaced (skips.map (Skip.problem path)) pad text).toList = placed := by
    rw [significant_replaced hpad, ← filter_eq_of_kept hsub hperm
      ((pairwise_significant text.toList).imp Nat.ne_of_lt)]
    simp only [hreported, decide_not]
  obtain ⟨c, hmargins⟩ := exists_indent_char hread
  rw [← hleft] at hlays hsub
  exact parse_eq_ok_iff.2
    ⟨[], read_of_lays hlays fun line hline => hmargins line (hsub.subset hline), rfl⟩

/-- The uneven text with its two reported lines replaced, by a comment and by blanks. -/
def evened : String := "# gone\non load:\n  a:\n      b\n    # c\n\t\n  e\n"

def evening : Nat → List Char
  | 1 => "# gone".toList
  | _ => ['\t']

theorem parse_of_replaced_uneven :
    (parse ⟨"uneven.sk"⟩ uneven = (unevenProblems, .ok unevenForest) ∧
      (∀ n, Padding (evening n)) ∧ replaced unevenProblems evening uneven = evened) ∧
    parse ⟨"uneven.sk"⟩ evened = ([], .ok unevenForest) := by
  have hparse : parse ⟨"uneven.sk"⟩ uneven = (unevenProblems, .ok unevenForest) := by rfl
  have hpad : ∀ n, Padding (evening n) := by
    intro n
    unfold evening
    split
    · rw [show "# gone".toList = [] ++ '#' :: " gone".toList from rfl]
      exact .comment nofun nofun (by decide +kernel) (by decide +kernel)
    · exact .blanks (List.forall_mem_singleton.2 rfl) (by decide)
  have hreplaced : replaced unevenProblems evening uneven = evened := by decide +kernel
  exact ⟨⟨hparse, hpad, hreplaced⟩, hreplaced ▸ parse_of_replaced hparse hpad⟩

end Source

end EventScripts
