import EventScripts.Proofs.Text.Written
import EventScripts.Source.Outline
/-!
# Lines and their comments

A text in which every `#` has been doubled holds no comment, and reads as the
text itself. So a line that is written as blanks and such a text counts, and is
read as it was meant, whatever blanks and comment stand behind it
(`line?_padded`). Blanks and comments by themselves do not count
(`line?_of_padding`).
-/

namespace EventScripts.Source

/-- The text with every `#` doubled. -/
def escape (cs : List Char) : List Char :=
  cs.flatMap fun c => if c = '#' then ['#', '#'] else [c]

theorem escape_cons_hash (cs : List Char) : escape ('#' :: cs) = '#' :: '#' :: escape cs := rfl

theorem escape_cons {c : Char} (h : c ≠ '#') (cs : List Char) :
    escape (c :: cs) = c :: escape cs := by
  rw [escape, List.flatMap_cons, if_neg h]
  rfl

theorem mem_escape {c : Char} {cs : List Char} : c ∈ escape cs ↔ c ∈ cs := by
  have hsingle : ∀ d : Char, c ∈ (if d = '#' then ['#', '#'] else [d]) ↔ d = c := by
    intro d
    split
    · next h => simp [h, eq_comm]
    · simp [eq_comm]
  rw [escape, List.mem_flatMap]
  simp only [hsingle, exists_eq_right]

/-- What has been escaped is read as it was, whatever follows it. -/
theorem stripComment_escape_append : ∀ cs rest : List Char,
    stripComment (escape cs ++ rest) = cs ++ stripComment rest
  | [], _ => rfl
  | c :: cs, rest => by
    have ih := stripComment_escape_append cs rest
    by_cases hc : c = '#'
    · rw [hc, escape_cons_hash, List.cons_append, List.cons_append, stripComment, ih]
      rfl
    · rw [escape_cons hc, List.cons_append, stripComment, if_neg hc, ih]
      · rfl
      · exact fun _ hhash => absurd hhash hc

theorem escape_append (cs ds : List Char) : escape (cs ++ ds) = escape cs ++ escape ds :=
  List.flatMap_append

theorem escape_of_not_mem : ∀ {cs : List Char}, '#' ∉ cs → escape cs = cs
  | [], _ => rfl
  | c :: cs, h => by
    obtain ⟨hc, hcs⟩ := not_or.1 (mt List.mem_cons.2 h)
    rw [escape_cons (Ne.symm hc), escape_of_not_mem hcs]

/-- Doubling does not change what a text ends in. -/
theorem getLast?_escape (cs : List Char) : (escape cs).getLast? = cs.getLast? := by
  rcases List.eq_nil_or_concat cs with rfl | ⟨front, c, rfl⟩
  · rfl
  · rw [List.concat_eq_append, escape_append, List.getLast?_append, List.getLast?_append]
    by_cases hc : c = '#'
    · rw [hc]
      rfl
    · rw [escape_cons hc]
      rfl

/-- A line as it is written: blanks, and behind them a text without its comment. -/
def written (line : Line) : List Char := line.margin ++ escape line.body

/-- The margin of the line is blank, and its body stands for itself. -/
structure Line.Plain (line : Line) : Prop where
  margin : ∀ c ∈ line.margin, Text.isBlank c = true
  body : line.body ≠ []
  trimmed : Text.trim line.body = line.body

/-- Blanks, and perhaps a comment behind them: what may follow the text of a line, or stand in its
place. A carriage return at the end of a line is one of the blanks, or belongs to the comment. -/
inductive Padding : List Char → Prop where
  | blanks {cs : List Char} (hblank : ∀ c ∈ cs, Text.isBlank c = true) (hfeed : '\n' ∉ cs) :
    Padding cs
  | comment {cs text : List Char} (hblank : ∀ c ∈ cs, Text.isBlank c = true) (hfeed : '\n' ∉ cs)
    (htext : text.head? ≠ some '#') (hline : '\n' ∉ text) : Padding (cs ++ '#' :: text)

namespace Padding

variable {pad : List Char}

theorem noFeed (h : Padding pad) : '\n' ∉ pad := by
  cases h with
  | blanks _ hfeed => exact hfeed
  | comment _ hfeed _ hline =>
    rw [List.mem_append, List.mem_cons]
    rintro (hmem | hmem | hmem)
    · exact hfeed hmem
    · cases hmem
    · exact hline hmem

theorem stripComment_blanks {cs : List Char} (h : ∀ c ∈ cs, Text.isBlank c = true)
    (rest : List Char) : stripComment (cs ++ rest) = cs ++ stripComment rest := by
  have hescape : escape cs = cs := escape_of_not_mem fun hhash => Bool.noConfusion (h _ hhash)
  have hstrip := stripComment_escape_append cs rest
  rwa [hescape] at hstrip

/-- Nothing but blanks is left without the comment. -/
theorem blank_of_mem (h : Padding pad) : ∀ c ∈ stripComment pad, Text.isBlank c = true := by
  cases h with
  | blanks hblank _ =>
    have hstrip := stripComment_blanks hblank []
    rw [List.append_nil, stripComment, List.append_nil] at hstrip
    rwa [hstrip]
  | @comment cs text hblank _ htext _ =>
    have hcomment : stripComment ('#' :: text) = [] := by
      rw [stripComment.eq_3, if_pos rfl]
      rintro rest - rfl
      exact htext rfl
    rwa [stripComment_blanks hblank, hcomment, List.append_nil]

end Padding

/-- **A line that is written is read again**, whatever blanks and comment stand behind it. -/
theorem line?_padded {line : Line} (h : line.Plain) {pad : List Char} (hpad : Padding pad) :
    line? line.number (written line ++ pad) = some line := by
  obtain ⟨hhead, hlast⟩ := Text.trim_eq_self_iff.1 h.trimmed
  have hstrip : stripComment (written line ++ pad)
      = line.margin ++ line.body ++ stripComment pad := by
    rw [written, List.append_assoc, Padding.stripComment_blanks h.margin,
      stripComment_escape_append, List.append_assoc]
  have hend : Text.trimEnd (line.margin ++ line.body) = line.margin ++ line.body := by
    refine Text.trimEnd_of_getLast? fun c hc => hlast c ?_
    rwa [List.getLast?_append, List.getLast?_eq_some_getLast h.body, Option.some_or,
      ← List.getLast?_eq_some_getLast h.body] at hc
  obtain ⟨hmargin, hbody⟩ := Text.margin_append h.margin hhead
  have hcounts : (line.margin ++ line.body).isEmpty = false :=
    List.isEmpty_eq_false_iff.2 (List.append_ne_nil_of_right_ne_nil _ h.body)
  simp only [line?, hstrip, Text.trimEnd_append hpad.blank_of_mem, hend, hcounts, hmargin, hbody]
  rfl

theorem line?_written {line : Line} (h : line.Plain) :
    line? line.number (written line) = some line := by
  have hnothing : Padding [] := .blanks nofun nofun
  have hread := line?_padded h hnothing
  rwa [List.append_nil] at hread

/-- A line of blanks and a comment does not count. -/
theorem line?_of_padding {pad : List Char} (hpad : Padding pad) (number : Nat) :
    line? number pad = none := by
  have hnone : Text.trimEnd (stripComment pad) = [] := Text.trimEnd_append hpad.blank_of_mem []
  simp only [line?, hnone]
  rfl

/-- A carriage return at the end is a blank, or belongs to the comment. -/
theorem stripComment_return (cs : List Char) : ∃ blanks, (∀ c ∈ blanks, Text.isBlank c = true) ∧
    stripComment (cs ++ ['\r']) = stripComment cs ++ blanks := by
  fun_induction stripComment cs with
  | case1 => exact ⟨['\r'], List.forall_mem_singleton.2 rfl, rfl⟩
  | case2 rest ih =>
    obtain ⟨blanks, hblanks, hstrip⟩ := ih
    refine ⟨blanks, hblanks, ?_⟩
    rw [List.cons_append, List.cons_append, stripComment, hstrip]
    rfl
  | case3 rest hrest =>
    refine ⟨[], nofun, ?_⟩
    cases rest with
    | nil => rfl
    | cons d ds =>
      rw [List.cons_append, stripComment.eq_3, if_pos rfl]
      · rfl
      · rintro more - hmore
        obtain ⟨rfl, -⟩ := List.cons.inj hmore
        exact hrest ds rfl rfl
  | case4 c rest hrest hc ih =>
    obtain ⟨blanks, hblanks, hstrip⟩ := ih
    refine ⟨blanks, hblanks, ?_⟩
    rw [List.cons_append, stripComment.eq_3, if_neg hc, hstrip]
    · rfl
    · exact fun _ hhash => absurd hhash hc

/-- Whether a line is read with or without a carriage return at its end makes no difference. -/
theorem line?_dropReturn (number : Nat) (raw : List Char) :
    line? number (Text.dropReturn raw) = line? number raw := by
  unfold Text.dropReturn
  split
  · next front hreverse =>
    obtain rfl : raw = front.reverse ++ ['\r'] := by
      rw [← List.reverse_reverse raw, hreverse, List.reverse_cons]
    obtain ⟨blanks, hblanks, hstrip⟩ := stripComment_return front.reverse
    simp only [line?, hstrip, Text.trimEnd_append hblanks]
  · rfl

theorem getLast?_written {line : Line} (h : line.Plain) :
    (written line).getLast? = line.body.getLast? := by
  rw [written, List.getLast?_append, getLast?_escape, List.getLast?_eq_some_getLast h.body,
    Option.some_or]

/-- Lines that are numbered in their order. -/
def Numbered (first : Nat) (lines : List Line) : Prop :=
  lines.map (·.number) = List.range' first lines.length

theorem filterMap_written : ∀ {lines : List Line} {first : Nat}, (∀ line ∈ lines, line.Plain) →
    Numbered first lines →
    ((lines.map written).zipIdx first).filterMap (fun (raw, number) => line? number raw) = lines
  | [], _, _, _ => rfl
  | line :: lines, first, hplain, hnumbers => by
    obtain ⟨hline, hlines⟩ := List.forall_mem_cons.1 hplain
    obtain ⟨hfirst, hrest⟩ := List.cons.inj hnumbers
    have hread : line? first (written line) = some line := hfirst ▸ line?_written hline
    simp only [List.map_cons, List.zipIdx_cons, List.filterMap_cons, hread,
      filterMap_written hlines hrest]

/-- **The lines of a text that has been written count**, all of them. -/
theorem significant_unlines {lines : List Line} (hplain : ∀ line ∈ lines, line.Plain)
    (hfeeds : ∀ line ∈ lines, '\n' ∉ line.margin ∧ '\n' ∉ line.body) (hnumbers : Numbered 1 lines) :
    significant (Text.unlines (lines.map written)) = lines := by
  have hlines : ∀ l ∈ lines.map written, '\n' ∉ l ∧ l.getLast? ≠ some '\r' := by
    intro l hl
    obtain ⟨line, hline, rfl⟩ := List.mem_map.1 hl
    have hp := hplain line hline
    constructor
    · rw [written, List.mem_append, mem_escape]
      exact not_or.2 (hfeeds line hline)
    · rw [getLast?_written hp]
      intro hreturn
      have hblank := (Text.trim_eq_self_iff.1 hp.trimmed).2 '\r' hreturn
      cases hblank
  rw [significant, Text.lines_unlines hlines]
  exact filterMap_written hplain hnumbers

end EventScripts.Source
