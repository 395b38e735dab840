import EventScripts.Proofs.Path.Components
import EventScripts.Proofs.Source.Nesting
import EventScripts.Proofs.Source.Rendering
/-!
# One character indents

The blanks in front of the lines that count, those of lines that are skipped among them, must all be
one character, or the file is refused. `mixing_detected` says that this is noticed
exactly: a text is refused if and only if there are two different characters among
these blanks, the error has the number of the first line with which this is so, and what
has been reported by then is what is reported of the text in front of that line.

While lines are added, the character that indents is the first of all the blanks so
far, and these are uniform; that is what a single line keeps or breaks (`add_margin`).

`SPEC_FULL.md` §10.6 (SourceTree) refuses a file that mixes tabs and spaces.
-/

namespace EventScripts

namespace Text

/-- The lines of a text as they stand, without the line feeds between them; the last of them may be
empty. -/
def rawLines (cs : List Char) : List (List Char) := pieces (· == '\n') cs

theorem noFeed_of_mem_rawLines {cs raw : List Char} (h : raw ∈ rawLines cs) : '\n' ∉ raw :=
  fun hmem => absurd (no_sep_of_mem_pieces h '\n' hmem) (by decide)

/-- With a line feed at its end, a text is the text of its lines. -/
theorem unlines_rawLines : ∀ cs : List Char, unlines (rawLines cs) = cs ++ ['\n']
  | [] => rfl
  | c :: cs => by
    have ih := unlines_rawLines cs
    rw [rawLines] at ih ⊢
    by_cases hc : c = '\n'
    · rw [pieces, if_pos (by simp [hc]), unlines, List.flatMap_cons, ← unlines, ih, hc]
      rfl
    · rw [pieces, if_neg (by simp [hc])]
      cases hp : pieces (· == '\n') cs with
      | nil => exact absurd hp (pieces_ne_nil cs)
      | cons w ws =>
        rw [hp, unlines, List.flatMap_cons] at ih
        rw [unlines, List.flatMap_cons, List.cons_append, List.cons_append, ih, List.cons_append]

end Text

namespace Source

/-! ## The lines as they stand -/

/-- The lines that count can be read from the lines as they stand. -/
theorem significant_eq_counting (text : List Char) :
    significant text = counting 1 (Text.rawLines text) :=
  significant_written (fun _ => Text.noFeed_of_mem_rawLines)
    (.inr (Text.unlines_rawLines text).symm)

theorem number_of_mem_counting : ∀ {first : Nat} {raws : List (List Char)} {line : Line},
    line ∈ counting first raws → first ≤ line.number ∧ line.number < first + raws.length
  | _, [], _, h => by cases h
  | first, raw :: raws, line, h => by
    rw [counting_cons, List.mem_append, Option.mem_toList] at h
    rw [List.length_cons]
    rcases h with hread | hrest
    · have hnumber := (line?_eq_some hread).1
      omega
    · have hnumber := number_of_mem_counting hrest
      omega

/-- The lines that count, of the first few lines. -/
theorem counting_take : ∀ (first k : Nat) (raws : List (List Char)),
    counting first (raws.take k) = (counting first raws).filter (·.number < first + k)
  | first, k, [] => by
    rw [List.take_nil]
    rfl
  | first, 0, raw :: raws => by
    refine (List.filter_eq_nil_iff.2 fun line hline => ?_).symm
    have hle := (number_of_mem_counting hline).1
    simpa using hle
  | first, k + 1, raw :: raws => by
    rw [List.take_succ_cons, counting_cons, counting_cons, List.filter_append,
      counting_take (first + 1) k raws, Nat.add_right_comm first 1 k, Nat.add_assoc first k 1]
    refine congrArg (· ++ _) (List.filter_eq_self.2 fun line hline => ?_).symm
    have hnumber := (line?_eq_some (Option.mem_toList.1 hline)).1
    simp only [hnumber, decide_eq_true_eq]
    omega

/-- The text in front of a line. -/
def textBefore (text : String) (number : Nat) : String :=
  String.ofList (Text.unlines ((Text.rawLines text.toList).take (number - 1)))

theorem significant_textBefore (text : String) (n : Nat) :
    significant (textBefore text (n + 1)).toList
      = (significant text.toList).filter (·.number < n + 1) := by
  have hfeeds : ∀ raw ∈ (Text.rawLines text.toList).take n, '\n' ∉ raw := fun raw hraw =>
    Text.noFeed_of_mem_rawLines (List.mem_of_mem_take hraw)
  rw [textBefore, String.toList_ofList, Nat.add_sub_cancel, significant_written hfeeds (.inl rfl),
    counting_take, significant_eq_counting, Nat.add_comm 1 n]

/-- What is in front of a line of a text is how the text begins. -/
theorem exists_textBefore_append {text : String} {n : Nat}
    (h : n < (Text.rawLines text.toList).length) :
    ∃ rest, text.toList = (textBefore text (n + 1)).toList ++ rest := by
  have hsplit : Text.unlines ((Text.rawLines text.toList).take n)
      ++ Text.unlines ((Text.rawLines text.toList).drop n) = text.toList ++ ['\n'] := by
    rw [Text.unlines, Text.unlines, ← List.flatMap_append, List.take_append_drop]
    exact Text.unlines_rawLines text.toList
  obtain ⟨raws, last, hlast⟩ := List.eq_nil_or_concat' ((Text.rawLines text.toList).drop n)
    |>.resolve_left (by simpa using h)
  rw [hlast, Text.unlines, Text.unlines, List.flatMap_append, List.flatMap_singleton,
    ← List.append_assoc, ← List.append_assoc] at hsplit
  rw [textBefore, String.toList_ofList, Nat.add_sub_cancel]
  refine ⟨raws.flatMap (· ++ ['\n']) ++ last, (List.append_inj' hsplit rfl).1.symm.trans ?_⟩
  rw [Text.unlines, List.append_assoc]

/-! ## Uniform blanks -/

/-- All characters are one. -/
def Uniform (cs : List Char) : Prop := ∀ c ∈ cs, ∀ d ∈ cs, c = d

theorem Uniform.of_subset {cs ds : List Char} (h : Uniform ds) (hsub : cs ⊆ ds) : Uniform cs :=
  fun c hc d hd => h c (hsub hc) d (hsub hd)

theorem uniform_cons_iff {c : Char} {cs : List Char} : Uniform (c :: cs) ↔ ∀ d ∈ cs, d = c := by
  constructor
  · intro h d hd
    exact h d (List.mem_cons_of_mem _ hd) c List.mem_cons_self
  · intro h
    have hall : ∀ d ∈ c :: cs, d = c := List.forall_mem_cons.2 ⟨rfl, h⟩
    intro d hd e he
    exact (hall d hd).trans (hall e he).symm

/-- The blanks in front of lines, together. -/
def margins (lines : List Line) : List Char := lines.flatMap (·.margin)

theorem margins_subset {lines more : List Line} (h : lines ⊆ more) :
    margins lines ⊆ margins more := by
  intro c hc
  obtain ⟨line, hline, hc⟩ := List.mem_flatMap.1 hc
  exact List.mem_flatMap.2 ⟨line, h hline, hc⟩

theorem margins_singleton (line : Line) : margins [line] = line.margin :=
  List.flatMap_singleton _ _

namespace Outline

variable {outline : Outline} {front : List Char}

/-- The blanks so far go on uniformly, or they do not. -/
theorem indentWith_cases (h : Uniform front) (margin : List Char) :
    (Uniform (front ++ margin) ∧ indentWith front.head? margin = some (front ++ margin).head?) ∨
      (¬Uniform (front ++ margin) ∧ indentWith front.head? margin = none) := by
  unfold indentWith
  rw [← List.head?_append]
  cases hall : front ++ margin with
  | nil => exact .inl ⟨nofun, rfl⟩
  | cons c rest =>
    -- what is in front has the character already
    have hfront : ∀ d ∈ front, d = c := by
      intro d hd
      cases front with
      | nil => cases hd
      | cons e front =>
        obtain ⟨rfl, -⟩ := List.cons.inj hall
        exact h d hd e List.mem_cons_self
    have huniform : Uniform (c :: rest) ↔ ∀ d ∈ margin, d = c := by
      have hmem : ∀ d, d ∈ c :: rest ↔ d ∈ front ∨ d ∈ margin := by
        intro d
        rw [← hall, List.mem_append]
      constructor
      · intro hu d hd
        exact hu d ((hmem d).2 (.inr hd)) c List.mem_cons_self
      · intro hm
        refine uniform_cons_iff.2 fun d hd => ?_
        exact ((hmem d).1 (List.mem_cons_of_mem _ hd)).elim (hfront d) (hm d)
    rw [List.head?_cons]
    simp only [huniform, List.all_eq_true, beq_iff_eq]
    by_cases hm : ∀ d ∈ margin, d = c
    · exact .inl ⟨hm, if_pos hm⟩
    · exact .inr ⟨hm, if_neg hm⟩

/-- **A line is added if the blanks stay uniform with it.** -/
theorem add_margin (hchar : outline.indentChar = front.head?) (h : Uniform front) (line : Line) :
    (Uniform (front ++ line.margin) ∧ ∃ next, outline.add line = some next ∧
        next.indentChar = (front ++ line.margin).head?) ∨
      (¬Uniform (front ++ line.margin) ∧ outline.add line = none) := by
  rcases indentWith_cases h line.margin with ⟨hu, hindent⟩ | ⟨hu, hindent⟩
  · refine .inl ⟨hu, ?_⟩
    unfold add
    rw [hchar, hindent, Option.map_some]
    refine ⟨_, rfl, ?_⟩
    simp only
    split
    all_goals
      split
      all_goals rfl
  · refine .inr ⟨hu, ?_⟩
    unfold add
    rw [hchar, hindent, Option.map_none]

/-- **All lines are added if their blanks are uniform**; if not, those in front of the first with
which they are not. -/
theorem addAll_cases : ∀ (lines : List Line) {outline : Outline} {front : List Char},
    outline.indentChar = front.head? → Uniform front →
    (∃ last, outline.addAll lines = (last, none) ∧ Uniform (front ++ margins lines)) ∨
    ∃ before line after last, lines = before ++ line :: after ∧
      outline.addAll before = (last, none) ∧ outline.addAll lines = (last, some line.number) ∧
      Uniform (front ++ margins before) ∧ ¬Uniform (front ++ margins (before ++ [line]))
  | [], outline, front, _, h => by
    refine .inl ⟨outline, rfl, ?_⟩
    rwa [margins, List.flatMap_nil, List.append_nil]
  | line :: lines, outline, front, hchar, h => by
    have hmargins : ∀ more, margins (line :: more) = line.margin ++ margins more := fun more =>
      List.flatMap_cons
    rcases add_margin hchar h line with ⟨hu, next, hadd, hnext⟩ | ⟨hu, hadd⟩
    · have hrun : ∀ more, outline.addAll (line :: more) = next.addAll more := by
        intro more
        rw [addAll, hadd]
      rcases addAll_cases lines hnext hu with
        ⟨last, hall, hlast⟩ | ⟨before, l, after, last, rfl, hbefore, hall, hgood, hbad⟩
      · exact .inl ⟨last, (hrun lines).trans hall, by rwa [hmargins, ← List.append_assoc]⟩
      · refine .inr ⟨line :: before, l, after, last, rfl, (hrun before).trans hbefore,
          (hrun _).trans hall, ?_, ?_⟩
        · rwa [hmargins, ← List.append_assoc]
        · rwa [List.cons_append, hmargins, ← List.append_assoc]
    · refine .inr ⟨[], line, lines, outline, rfl, rfl, ?_, ?_, ?_⟩
      · rw [addAll, hadd]
      · rwa [margins, List.flatMap_nil, List.append_nil]
      · rwa [List.nil_append, margins_singleton]

end Outline

/-! ## Texts -/

/-- What reading a text comes to: its blanks are uniform, or there is a first line with which they
are not, and reading has stopped in front of it. -/
theorem read_cases (text : String) :
    (∃ skips forest, read text = ⟨skips, .ok forest⟩ ∧
      Uniform (margins (significant text.toList))) ∨
    ∃ before line after last, significant text.toList = before ++ line :: after ∧
      Outline.addAll {} before = (last, none) ∧ read text = ⟨last.skips, .error line.number⟩ ∧
      Uniform (margins before) ∧ ¬Uniform (margins (before ++ [line])) := by
  have hnone : Uniform [] := nofun
  have hstart : ({} : Outline).indentChar = ([] : List Char).head? := rfl
  rcases Outline.addAll_cases (significant text.toList) hstart hnone with
    ⟨last, hall, hu⟩ | ⟨before, line, after, last, hsplit, hbefore, hall, hgood, hbad⟩
  · refine .inl ⟨last.skips, last.forest, ?_, hu⟩
    rw [read, hall]
  · refine .inr ⟨before, line, after, last, hsplit, hbefore, ?_, hgood, hbad⟩
    rw [read, hall]

/-- The blanks in front of a line of a text. -/
def marginAt (text : String) (number : Nat) : List Char := Text.margin (lineAt text number)

/-- Up to a line, that line included, there are two different characters in front of lines that
count. -/
def Mixes (text : String) (number : Nat) : Prop :=
  ∃ line ≤ number, ∃ other ≤ number, isSignificant text line = true ∧
    isSignificant text other = true ∧ ∃ c ∈ marginAt text line, ∃ d ∈ marginAt text other, c ≠ d

/-- The line is the first with which there are two different characters in front of lines. -/
structure FirstToMix (text : String) (number : Nat) : Prop where
  counts : isSignificant text number = true
  mixes : Mixes text number
  first : ∀ earlier < number, ¬Mixes text earlier

theorem mixes_iff {text : String} {number : Nat} : Mixes text number ↔
    ¬Uniform (margins ((significant text.toList).filter (·.number < number + 1))) := by
  have hmem : ∀ c, c ∈ margins ((significant text.toList).filter (·.number < number + 1)) ↔
      ∃ line ≤ number, isSignificant text line = true ∧ c ∈ marginAt text line := by
    intro c
    simp only [margins, List.mem_flatMap, List.mem_filter, decide_eq_true_eq, Nat.lt_succ_iff]
    constructor
    · rintro ⟨line, ⟨hline, hle⟩, hc⟩
      refine ⟨line.number, hle, (mem_significant hline).1, ?_⟩
      rwa [marginAt, margin_of_mem hline]
    · rintro ⟨n, hle, hcounts, hc⟩
      obtain ⟨line, hline, rfl⟩ := exists_significant hcounts
      rw [marginAt, margin_of_mem hline] at hc
      exact ⟨line, ⟨hline, hle⟩, hc⟩
  simp only [Uniform, hmem, not_forall]
  constructor
  · rintro ⟨line, hline, other, hother, hcounts, hcounts', c, hc, d, hd, hne⟩
    exact ⟨c, ⟨line, hline, hcounts, hc⟩, d, ⟨other, hother, hcounts', hd⟩, hne⟩
  · rintro ⟨c, ⟨line, hline, hcounts, hc⟩, d, ⟨other, hother, hcounts', hd⟩, hne⟩
    exact ⟨line, hline, other, hother, hcounts, hcounts', c, hc, d, hd, hne⟩

/-- Lines below a number, in front of others, are those that are found below it. -/
theorem filter_number_lt {front back : List Line} {n : Nat} (hfront : ∀ l ∈ front, l.number < n)
    (hback : ∀ l ∈ back, n ≤ l.number) : (front ++ back).filter (·.number < n) = front := by
  have hall : front.filter (·.number < n) = front :=
    List.filter_eq_self.2 fun l hl => by simpa using hfront l hl
  have hnone : back.filter (·.number < n) = [] :=
    List.filter_eq_nil_iff.2 fun l hl => by simpa using hback l hl
  rw [List.filter_append, hall, hnone, List.append_nil]

section

variable {text : String} {before after : List Line} {line : Line}

theorem filter_before (hsplit : significant text.toList = before ++ line :: after) :
    (significant text.toList).filter (·.number < line.number) = before ∧
      (significant text.toList).filter (·.number < line.number + 1) = before ++ [line] := by
  have hsorted := List.pairwise_map.1 (pairwise_significant text.toList)
  rw [hsplit] at hsorted ⊢
  obtain ⟨-, hback, hacross⟩ := List.pairwise_append.1 hsorted
  have hafter := (List.pairwise_cons.1 hback).1
  have hbefore : ∀ l ∈ before, l.number < line.number := fun l hl =>
    hacross l hl line List.mem_cons_self
  constructor
  · exact filter_number_lt hbefore
      (List.forall_mem_cons.2 ⟨Nat.le_refl _, fun l hl => Nat.le_of_lt (hafter l hl)⟩)
  · rw [← List.singleton_append, ← List.append_assoc]
    exact filter_number_lt (List.forall_mem_append.2 ⟨fun l hl => Nat.lt_succ_of_lt (hbefore l hl),
      List.forall_mem_singleton.2 (Nat.lt_succ_self _)⟩) hafter

/-- The line with which the blanks are not uniform any more is the first to mix. -/
theorem firstToMix_of_split (hsplit : significant text.toList = before ++ line :: after)
    (hgood : Uniform (margins before)) (hbad : ¬Uniform (margins (before ++ [line]))) :
    FirstToMix text line.number := by
  have hline : line ∈ significant text.toList := by simp [hsplit]
  obtain ⟨hbelow, hupto⟩ := filter_before hsplit
  refine ⟨(mem_significant hline).1, mixes_iff.2 (by rwa [hupto]), fun earlier hlt hmixes => ?_⟩
  refine mixes_iff.1 hmixes (hgood.of_subset (margins_subset fun l hl => ?_))
  obtain ⟨hl, hle⟩ := List.mem_filter.1 hl
  rw [← hbelow]
  refine List.mem_filter.2 ⟨hl, ?_⟩
  simp only [decide_eq_true_eq] at hle ⊢
  omega

/-- The lines in front of one that counts are those of the text in front of it. -/
theorem textBefore_of_split (hsplit : significant text.toList = before ++ line :: after) :
    significant (textBefore text line.number).toList = before ∧
      ∃ rest, text.toList = (textBefore text line.number).toList ++ rest := by
  have hline : line ∈ counting 1 (Text.rawLines text.toList) := by
    rw [← significant_eq_counting, hsplit]
    simp
  obtain ⟨hpositive, hbound⟩ := number_of_mem_counting hline
  obtain ⟨k, hk⟩ := Nat.exists_eq_add_of_le' hpositive
  constructor
  · rw [hk, significant_textBefore, ← hk]
    exact (filter_before hsplit).1
  · rw [hk]
    exact exists_textBefore_append (by omega)

end

/-- When a text is refused, and what has been reported by then. -/
structure MixingDetected (path : Path) (text : String) : Prop where
  refused_iff : (∃ problem, (parse path text).2 = .error problem) ↔ ∃ number, Mixes text number
  /-- The error has the number of the first line to mix, and the reports before it are those of the
  text in front of that line. -/
  first : ∀ problem, (parse path text).2 = .error problem →
    ∃ number, problem = .malformed path (some number) .mixedIndentation ∧
      FirstToMix text number ∧
      (∃ rest, text.toList = (textBefore text number).toList ++ rest) ∧
      ∃ forest, parse path (textBefore text number) = ((parse path text).1, .ok forest)

/-- **Mixed indentation is detected exactly.** -/
theorem mixing_detected (path : Path) (text : String) : MixingDetected path text := by
  rcases read_cases text with
    ⟨skips, forest, hread, hu⟩ | ⟨before, line, after, last, hsplit, hall, hread, hgood, hbad⟩
  · have hok : (parse path text).2 = .ok forest := by
      rw [parse, hread]
      rfl
    refine ⟨⟨?_, ?_⟩, fun problem h => ?_⟩
    · rintro ⟨problem, h⟩
      cases hok.symm.trans h
    · rintro ⟨number, h⟩
      exact absurd (hu.of_subset (margins_subset (List.filter_subset_self _))) (mixes_iff.1 h)
    · cases hok.symm.trans h
  · have hparse : parse path text = (last.skips.map (Skip.problem path),
        .error (.malformed path (some line.number) .mixedIndentation)) := by
      rw [parse, hread]
      rfl
    have hfirst := firstToMix_of_split hsplit hgood hbad
    obtain ⟨hlines, hfront⟩ := textBefore_of_split hsplit
    refine ⟨⟨fun _ => ⟨_, hfirst.mixes⟩, fun _ => ⟨_, by rw [hparse]⟩⟩, fun problem h => ?_⟩
    rw [hparse] at h ⊢
    cases h
    refine ⟨line.number, rfl, hfirst, hfront, last.forest, ?_⟩
    rw [parse, read, hlines, hall]
    rfl

/-- The tab of a line that is skipped counts, and so the spaces are too many. -/
example : parse ⟨"mixed.sk"⟩ "\tstray\non load:\n  a\n" =
    ([.malformed ⟨"mixed.sk"⟩ (some 1) (.unexpectedIndentation 0 1)],
      .error (.malformed ⟨"mixed.sk"⟩ (some 3) .mixedIndentation)) := by rfl

end Source

end EventScripts
