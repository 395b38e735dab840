import EventScripts.Proofs.Source.Outline
import EventScripts.Proofs.Text.Cut
import Mathlib.Data.List.Basic
/-!
# Forests that are written

A forest is written with one line for each node, in the order in which they come
(`Renders`). The lines at the top are not indented; those in a section are indented
more deeply than its own line, all of them with one character, and each section
may choose how deeply. Behind any line there may be a comment, and blank lines and
comments may stand anywhere.

What has been written is read as the forest again, each node with the number of
its line (`parse_of_renders`): the lines that count lay out the forest
(`lays_of_renders`), and reading undoes the layout.
-/

namespace EventScripts.Source

/-- A key that can be written in a line. -/
structure IsKey (key : String) : Prop where
  noFeed : '\n' ∉ key.toList
  trimmed : Text.trim key.toList = key.toList

/-- A key that is not taken for the line of a section, or for no line at all. -/
structure IsEntryKey (key : String) : Prop extends IsKey key where
  nonempty : key ≠ ""
  noColon : key.toList.getLast? ≠ some ':'

/-- A line as it is written at an indentation, without what follows it. -/
def indented (c : Char) (n : Nat) (body : List Char) : List Char :=
  List.replicate n c ++ escape body

/-- The lines, of which the first has a number, are a rendering of the forest at an indentation
with some character. -/
inductive Renders (c : Char) : Nat → Nat → List Node → List (List Char) → Prop where
  | nil {n first : Nat} : Renders c n first [] []
  | idle {n first : Nat} {pad : List Char} {nodes : List Node} {raws : List (List Char)}
      (hpad : Padding pad) (hrest : Renders c n (first + 1) nodes raws) :
      Renders c n first nodes (pad :: raws)
  | entry {n first : Nat} {key : String} {pad : List Char} {rest : List Node}
      {raws : List (List Char)} (hkey : IsEntryKey key) (hpad : Padding pad)
      (hrest : Renders c n (first + 1) rest raws) :
      Renders c n first (.entry first key :: rest) ((indented c n key.toList ++ pad) :: raws)
  | block {n deeper first : Nat} {key : String} {pad : List Char} {children rest : List Node}
      {own raws : List (List Char)} (hkey : IsKey key) (hpad : Padding pad) (hdeeper : n < deeper)
      (hchildren : Renders c deeper (first + 1) children own)
      (hrest : Renders c n (first + 1 + own.length) rest raws) :
      Renders c n first (.block first key children :: rest)
        ((indented c n (key.toList ++ [':']) ++ pad) :: own ++ raws)

variable {c : Char} {n first : Nat} {nodes : List Node} {raws : List (List Char)}

/-! ## Lines that count -/

/-- The lines that count, of some that are numbered from a number on. -/
def counting (first : Nat) (raws : List (List Char)) : List Line :=
  (raws.zipIdx first).filterMap fun (raw, number) => line? number raw

theorem counting_cons (first : Nat) (raw : List Char) (raws : List (List Char)) :
    counting first (raw :: raws) = (line? first raw).toList ++ counting (first + 1) raws := by
  unfold counting
  rw [List.zipIdx_cons]
  cases hread : line? first raw with
  | none => exact List.filterMap_cons_none hread
  | some line => exact List.filterMap_cons_some hread

theorem counting_append (first : Nat) (raws more : List (List Char)) :
    counting first (raws ++ more) = counting first raws ++ counting (first + raws.length) more := by
  rw [counting, List.zipIdx_append, List.filterMap_append]
  rfl

theorem significant_eq (text : List Char) : significant text = counting 1 (Text.lines text) := rfl

theorem counting_dropReturn : ∀ (first : Nat) (raws : List (List Char)),
    counting first (raws.map Text.dropReturn) = counting first raws
  | _, [] => rfl
  | first, raw :: raws => by
    rw [List.map_cons, counting_cons, counting_cons, line?_dropReturn, counting_dropReturn]

/-- The lines of a text that is written line by line, with or without an end to the last of them. -/
theorem significant_written {text : List Char} (hfeeds : ∀ raw ∈ raws, '\n' ∉ raw)
    (htext : text = Text.unlines raws ∨ text ++ ['\n'] = Text.unlines raws) :
    significant text = counting 1 raws := by
  rw [significant_eq]
  rcases htext with rfl | htext
  · have hlines := Text.lines_unlines_append hfeeds []
    rw [List.append_nil] at hlines
    rw [hlines, show Text.lines [] = [] from rfl, List.append_nil, counting_dropReturn]
  · rcases List.eq_nil_or_concat' raws with rfl | ⟨front, last, rfl⟩
    · exact absurd htext (List.concat_ne_nil _ _)
    · -- the last line has lost its end
      have hunlines : Text.unlines (front ++ [last]) = (Text.unlines front ++ last) ++ ['\n'] := by
        rw [Text.unlines, List.flatMap_append, List.flatMap_singleton, List.append_assoc]
        rfl
      obtain ⟨rfl, -⟩ := List.append_inj' (htext.trans hunlines) rfl
      have hfront : ∀ raw ∈ front, '\n' ∉ raw := fun raw hr => hfeeds raw (by simp [hr])
      rw [Text.lines_unlines_append hfront, counting_append, counting_append, counting_dropReturn,
        List.length_map]
      by_cases hlast : last = []
      · rw [hlast]
        rfl
      · rw [Text.lines_of_not_mem (hfeeds last (by simp)) hlast]

/-! ## What is written counts -/

/-- A line of a rendering is read as it was meant. -/
theorem line?_indented {pad body : List Char} (hblank : Text.isBlank c = true) (hpad : Padding pad)
    (hbody : body ≠ []) (htrim : Text.trim body = body) (number : Nat) :
    line? number (indented c n body ++ pad) = some ⟨number, List.replicate n c, body⟩ := by
  have hplain : Line.Plain ⟨number, List.replicate n c, body⟩ :=
    ⟨fun d hd => List.eq_of_mem_replicate hd ▸ hblank, hbody, htrim⟩
  exact line?_padded hplain hpad

/-- The line of a section stands for itself. -/
theorem trim_colon {key : String} (h : IsKey key) :
    Text.trim (key.toList ++ [':']) = key.toList ++ [':'] := by
  have hcolon : Text.isBlank ':' = false := by decide
  obtain ⟨hhead, -⟩ := Text.trim_eq_self_iff.1 h.trimmed
  refine Text.trim_eq_self_iff.2 ⟨fun d hd => ?_, fun d hd => ?_⟩
  · cases hkey : key.toList with
    | nil =>
      rw [hkey] at hd
      exact Option.some.inj hd ▸ hcolon
    | cons e es =>
      rw [hkey] at hd hhead
      exact hhead d hd
  · rw [List.getLast?_concat] at hd
    exact Option.some.inj hd ▸ hcolon

theorem trimEnd_key {key : String} (h : IsKey key) : Text.trimEnd key.toList = key.toList :=
  Text.trimEnd_of_getLast? (Text.trim_eq_self_iff.1 h.trimmed).2

/-- **The lines of a rendering that count lay out the forest.** -/
theorem lays_of_renders (hblank : Text.isBlank c = true) (h : Renders c n first nodes raws) :
    Lays n nodes (counting first raws) ∧
      ∀ line ∈ counting first raws, ∀ d ∈ line.margin, d = c := by
  induction h with
  | nil => exact ⟨.nil, nofun⟩
  | idle hpad _ ih =>
    rw [counting_cons, line?_of_padding hpad]
    exact ih
  | @entry n first key pad rest raws hkey hpad _ ih =>
    have hne : key.toList ≠ [] := fun hnil => hkey.nonempty (String.toList_eq_nil_iff.1 hnil)
    rw [counting_cons, line?_indented hblank hpad hne hkey.trimmed, Option.toList_some,
      List.singleton_append]
    constructor
    · have hlays : Lays n (_ :: rest) (⟨first, List.replicate n c, key.toList⟩ :: _) :=
        .entry List.length_replicate (Text.stripLast?_eq_none hkey.noColon) ih.1
      rwa [String.ofList_toList] at hlays
    · exact List.forall_mem_cons.2 ⟨fun d hd => List.eq_of_mem_replicate hd, ih.2⟩
  | @block n deeper first key pad children rest own raws hkey hpad hdeeper _ _ ihc ih =>
    rw [List.cons_append, counting_cons, counting_append,
      line?_indented hblank hpad (List.concat_ne_nil _ _) (trim_colon hkey), Option.toList_some,
      List.singleton_append]
    constructor
    · have hlays : Lays n (_ :: rest) (⟨first, List.replicate n c, key.toList ++ [':']⟩ :: _) :=
        .block List.length_replicate (Text.stripLast?_concat ':' key.toList) hdeeper ihc.1 ih.1
      rwa [trimEnd_key hkey, String.ofList_toList] at hlays
    · exact List.forall_mem_cons.2 ⟨fun d hd => List.eq_of_mem_replicate hd,
        List.forall_mem_append.2 ⟨ihc.2, ih.2⟩⟩

theorem noFeed_indented {body pad : List Char} (hfeed : c ≠ '\n') (hbody : '\n' ∉ body)
    (hpad : Padding pad) : '\n' ∉ indented c n body ++ pad := by
  rw [indented, List.mem_append, List.mem_append, mem_escape]
  rintro ((hmem | hmem) | hmem)
  · exact hfeed (List.eq_of_mem_replicate hmem).symm
  · exact hbody hmem
  · exact hpad.noFeed hmem

/-- No line of a rendering holds the end of one. -/
theorem noFeed_of_renders (hfeed : c ≠ '\n') (h : Renders c n first nodes raws) :
    ∀ raw ∈ raws, '\n' ∉ raw := by
  induction h with
  | nil => nofun
  | idle hpad _ ih => exact List.forall_mem_cons.2 ⟨hpad.noFeed, ih⟩
  | entry hkey hpad _ ih =>
    exact List.forall_mem_cons.2 ⟨noFeed_indented hfeed hkey.noFeed hpad, ih⟩
  | @block n deeper first key pad children rest own raws hkey hpad _ _ _ ihc ih =>
    have hbody : '\n' ∉ key.toList ++ [':'] := by
      rw [List.mem_append]
      rintro (hmem | hmem)
      · exact hkey.noFeed hmem
      · revert hmem
        decide
    rw [List.cons_append]
    exact List.forall_mem_cons.2 ⟨noFeed_indented hfeed hbody hpad,
      List.forall_mem_append.2 ⟨ihc, ih⟩⟩

/-- **Reading undoes writing.** A text whose lines are a rendering of a forest, the last of them
with or without its end, is read as the forest, and nothing is reported. -/
theorem parse_of_renders (hblank : Text.isBlank c = true) (hfeed : c ≠ '\n')
    (h : Renders c 0 1 nodes raws) {text : String}
    (htext : text.toList = Text.unlines raws ∨ text.toList ++ ['\n'] = Text.unlines raws)
    (path : Path) : parse path text = ([], .ok nodes) := by
  have hlines := significant_written (noFeed_of_renders hfeed h) htext
  obtain ⟨hlays, hmargins⟩ := lays_of_renders hblank h
  rw [← hlines] at hlays hmargins
  rw [parse, read_of_lays hlays hmargins]
  rfl

/-! ## A script with comments -/

/-- Two sections, one in the other, then one with nothing in it, and an entry. -/
def commented : List Node := [
  .block 2 "on join" [.entry 3 "say #1", .block 5 "if" [.entry 6 "stop"]],
  .block 8 "quietly" [], .entry 9 "end"]

/-- It is written with comments, a blank line, and more indentation where it is deeper. -/
def commentedLines : List (List Char) := [
  [] ++ '#' :: " greetings\r".toList,
  indented ' ' 0 ("on join".toList ++ [':']) ++ ([' '] ++ '#' :: " # those who come".toList),
  indented ' ' 2 "say #1".toList ++ [],
  [],
  indented ' ' 2 ("if".toList ++ [':']) ++ ['\r'],
  indented ' ' 6 "stop".toList ++ [],
  [' ', '\t'] ++ '#' :: [],
  indented ' ' 0 ("quietly".toList ++ [':']) ++ [],
  indented ' ' 0 "end".toList ++ []]

theorem renders_commented : Renders ' ' 0 1 commented commentedLines := by
  have hkey : ∀ key ∈ ["on join", "if", "quietly"], IsKey key := by
    intro key hkey
    constructor
    · revert key
      decide +kernel
    · revert key
      decide +kernel
  have hentry : ∀ key ∈ ["say #1", "stop", "end"], IsEntryKey key := by
    intro key hkey
    refine ⟨⟨?_, ?_⟩, ?_, ?_⟩
    all_goals revert key; decide +kernel
  have hnothing : Padding [] := .blanks nofun nofun
  have hreturn : Padding ['\r'] := .blanks (List.forall_mem_singleton.2 rfl) (by decide)
  have hinner : Renders ' ' 2 3 [.entry 3 "say #1", .block 5 "if" [.entry 6 "stop"]]
      [indented ' ' 2 "say #1".toList ++ [], [], indented ' ' 2 ("if".toList ++ [':']) ++ ['\r'],
        indented ' ' 6 "stop".toList ++ [], [' ', '\t'] ++ '#' :: []] := by
    refine .entry (hentry _ (by simp)) hnothing (.idle hnothing ?_)
    have hstop : Renders ' ' 6 6 [.entry 6 "stop"] [indented ' ' 6 "stop".toList ++ []] :=
      .entry (hentry _ (by simp)) hnothing .nil
    have hblank : ∀ c ∈ [' ', '\t'], Text.isBlank c = true :=
      List.forall_mem_cons.2 ⟨rfl, List.forall_mem_singleton.2 rfl⟩
    have hend : Renders ' ' 2 7 [] [[' ', '\t'] ++ '#' :: []] :=
      .idle (.comment hblank (by decide) nofun nofun) .nil
    exact .block (hkey _ (by simp)) hreturn (by decide) hstop hend
  have hnone : Renders ' ' 1 9 [] [] := .nil
  have hlast : Renders ' ' 0 8 [.block 8 "quietly" [], .entry 9 "end"]
      [indented ' ' 0 ("quietly".toList ++ [':']) ++ [], indented ' ' 0 "end".toList ++ []] :=
    .block (hkey _ (by simp)) hnothing Nat.zero_lt_one hnone
      (.entry (hentry _ (by simp)) hnothing .nil)
  refine .idle (.comment nofun nofun (by decide +kernel) (by decide +kernel)) ?_
  exact .block (hkey _ (by simp))
    (.comment (List.forall_mem_singleton.2 rfl) (by decide) (by decide +kernel) (by decide +kernel))
    (by decide) hinner hlast

/-- The last of the lines has no end. -/
def commentedText : String :=
  "# greetings\r\non join: # # those who come\n  say ##1\n\n  if:\r\n      stop\n \t#\n"
    ++ "quietly:\nend"

theorem parse_of_renders_commented :
    (Text.isBlank ' ' = true ∧ ' ' ≠ '\n' ∧ Renders ' ' 0 1 commented commentedLines ∧
      commentedText.toList ++ ['\n'] = Text.unlines commentedLines) ∧
    parse ⟨"greet.sk"⟩ commentedText = ([], .ok commented) := by
  have htext : commentedText.toList ++ ['\n'] = Text.unlines commentedLines := by decide +kernel
  exact ⟨⟨by decide, by decide, renders_commented, htext⟩, parse_of_renders (by decide) (by decide)
    renders_commented (.inr htext) ⟨"greet.sk"⟩⟩

end EventScripts.Source
