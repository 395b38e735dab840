import EventScripts.Demo.Grammar
import EventScripts.Loader.Construct
import EventScripts.Proofs.Demo.Header
import EventScripts.Proofs.Event.Catalog
import EventScripts.Proofs.Source.Outline
/-!
# Demonstration scripts that are written

A script for the demonstration grammar is a list of sections, each with its
kinds, its tier and its lines (`Section`). It is written as a header for each
section and the lines behind it, indented and with every `#` doubled (`render`).
What has been written is read as one block for each section (`read_render`), and
these compile to the triggers that the sections stand for
(`structuresOf_compileAll`).
-/

namespace EventScripts.Demo

/-- A line that can be written in a section. -/
structure IsLine (line : String) : Prop where
  nonempty : line ≠ ""
  trimmed : Text.trim line.toList = line.toList
  noFeed : '\n' ∉ line.toList
  noColon : line.toList.getLast? ≠ some ':'

theorem isLine_iff {line : String} : IsLine line ↔ line ≠ "" ∧
    Text.trim line.toList = line.toList ∧ '\n' ∉ line.toList ∧ line.toList.getLast? ≠ some ':' :=
  ⟨fun ⟨hne, htrim, hfeed, hcolon⟩ => ⟨hne, htrim, hfeed, hcolon⟩,
    fun ⟨hne, htrim, hfeed, hcolon⟩ => ⟨hne, htrim, hfeed, hcolon⟩⟩

instance (line : String) : Decidable (IsLine line) := decidable_of_iff _ isLine_iff.symm

/-- A section of a script, with the kinds of events and the tier that it is for. -/
structure Section where
  kinds : List Kind
  tier : Tier
  lines : List String
  nonempty : kinds ≠ []
  declared : ∀ kind ∈ kinds, catalog.contains kind = true
  isLine : ∀ line ∈ lines, IsLine line

/-- Blanks that lines can be indented with, all of them the same. -/
structure Indent where
  char : Char
  width : Nat
  blank : Text.isBlank char = true
  inLine : char ≠ '\n'
  deep : 0 < width

def Indent.text (indent : Indent) : List Char := List.replicate indent.width indent.char

/-- The header of a section. -/
def Section.header (s : Section) : String := writtenHeader s.kinds s.tier.name.toList

/-- A section as it is written: the header, and behind it the lines. -/
def Section.written (indent : Indent) (s : Section) : List (List Char) :=
  (s.header.toList ++ [':']) :: s.lines.map fun line => indent.text ++ Source.escape line.toList

/-- The script that holds the sections. -/
def render (indent : Indent) (sections : List Section) : String :=
  String.ofList (Text.unlines (sections.flatMap (Section.written indent)))

/-! ## Headers -/

/-- The kinds of the demonstration are words, and nothing in them is taken for a comment. -/
theorem isWord_of_contains {kind : Kind} (h : catalog.contains kind = true) :
    IsWord kind ∧ '#' ∉ kind.toList := by
  have hall : ∀ kind ∈ catalog.kinds, kind ≠ "" ∧
      kind.toList.any Text.isBlank = false ∧ '#' ∉ kind.toList := by decide +kernel
  obtain ⟨hne, hblank, hhash⟩ := hall kind (Catalog.mem_kinds_of_contains h)
  exact ⟨isWord_of_any hne hblank, hhash⟩

theorem mem_writtenKinds {c : Char} : ∀ {kinds : List Kind}, c ∈ writtenKinds kinds →
    c ∈ " or ".toList ∨ ∃ kind ∈ kinds, c ∈ kind.toList
  | [], h => by cases h
  | [kind], h => by
    rw [writtenKinds, List.map_singleton, List.intercalate_singleton] at h
    exact .inr ⟨kind, List.mem_singleton_self kind, h⟩
  | kind :: next :: kinds, h => by
    rw [writtenKinds_cons, List.mem_append, List.mem_append] at h
    rcases h with h | h | h
    · exact .inr ⟨kind, List.mem_cons_self, h⟩
    · exact .inl h
    · rcases mem_writtenKinds h with h | ⟨k, hk, h⟩
      · exact .inl h
      · exact .inr ⟨k, List.mem_cons_of_mem _ hk, h⟩

namespace Section

variable (s : Section)

theorem toList_header : s.header.toList = "on ".toList
    ++ (writtenKinds s.kinds ++ (" with priority ".toList ++ s.tier.name.toList)) :=
  String.toList_ofList

/-- A header is written as it is, in one line. -/
theorem not_mem_header : '#' ∉ s.header.toList ∧ '\n' ∉ s.header.toList := by
  have htier : ∀ tier : Tier, '#' ∉ tier.name.toList ∧ '\n' ∉ tier.name.toList := by
    intro tier
    cases tier <;> decide
  have hkinds : '#' ∉ writtenKinds s.kinds ∧ '\n' ∉ writtenKinds s.kinds := by
    constructor <;> intro hmem <;> rcases mem_writtenKinds hmem with hor | ⟨kind, hkind, hmem⟩
    · revert hor
      decide
    · exact (isWord_of_contains (s.declared kind hkind)).2 hmem
    · revert hor
      decide
    · cases (isWord_of_contains (s.declared kind hkind)).1.noBlank _ hmem
  obtain ⟨hhash, hfeed⟩ := htier s.tier
  rw [toList_header]
  simp only [List.mem_append, not_or]
  exact ⟨⟨by decide, hkinds.1, by decide, hhash⟩, by decide, hkinds.2, by decide, hfeed⟩

/-- A header does not end in a blank. -/
theorem trimEnd_header : Text.trimEnd s.header.toList = s.header.toList := by
  have htier : ∀ tier : Tier, ∃ last, tier.name.toList.getLast? = some last ∧
      Text.isBlank last = false := by
    intro tier
    cases tier <;> exact ⟨_, rfl, rfl⟩
  obtain ⟨last, hlast, hblank⟩ := htier s.tier
  refine Text.trimEnd_of_getLast? fun c hc => ?_
  rw [toList_header] at hc
  simp only [List.getLast?_append, hlast, Option.some_or] at hc
  obtain rfl : last = c := Option.some.inj hc
  exact hblank

theorem read_header : Header.read s.header = .ok ⟨s.kinds, s.tier⟩ := by
  refine Demo.read_header s.nonempty
    (fun kind hkind => (isWord_of_contains (s.declared kind hkind)).1) ?_
  rw [String.ofList_toList]
  cases s.tier <;> rfl

end Section

/-! ## Lines -/

/-- The lines of a section, the first of them with its number. -/
def Section.linesAt (indent : Indent) (first : Nat) (s : Section) : List Source.Line :=
  ⟨first, [], s.header.toList ++ [':']⟩ ::
    (s.lines.zipIdx (first + 1)).map fun (line, number) => ⟨number, indent.text, line.toList⟩

/-- The lines of a script from a number on. -/
def layout (indent : Indent) : Nat → List Section → List Source.Line
  | _, [] => []
  | first, s :: rest => s.linesAt indent first ++ layout indent (first + 1 + s.lines.length) rest

/-- The block that a section is read as. -/
def Section.node (first : Nat) (s : Section) : Node :=
  .block first s.header ((s.lines.zipIdx (first + 1)).map fun (line, number) => .entry number line)

/-- The blocks of a script whose first line has a number. -/
def nodes : Nat → List Section → List Node
  | _, [] => []
  | first, s :: rest => s.node first :: nodes (first + 1 + s.lines.length) rest

variable (indent : Indent)

theorem number_linesAt (first : Nat) (s : Section) :
    (s.linesAt indent first).map (·.number) = List.range' first (1 + s.lines.length) := by
  rw [Section.linesAt, List.map_cons, List.map_map, Nat.add_comm 1, List.range'_succ,
    ← List.zipIdx_map_snd]
  rfl

theorem numbered_layout : ∀ (first : Nat) (sections : List Section),
    Source.Numbered first (layout indent first sections)
  | _, [] => rfl
  | first, s :: rest => by
    have ih := numbered_layout (first + 1 + s.lines.length) rest
    have hlength : (s.linesAt indent first).length = 1 + s.lines.length := by
      rw [← List.length_map (·.number), number_linesAt, List.length_range']
    rw [Source.Numbered] at ih
    rw [Source.Numbered, layout, List.map_append, number_linesAt, ih, List.length_append, hlength,
      Nat.add_assoc, List.range'_append_1]

/-- The lines of the layout are the text that is written. -/
theorem written_layout : ∀ (first : Nat) (sections : List Section),
    (layout indent first sections).map Source.written = sections.flatMap (Section.written indent)
  | _, [] => rfl
  | first, s :: rest => by
    have hheader : Source.escape (s.header.toList ++ [':']) = s.header.toList ++ [':'] := by
      rw [Source.escape_append, Source.escape_of_not_mem s.not_mem_header.1]
      rfl
    have hlines : (s.linesAt indent first).map Source.written = s.written indent := by
      rw [Section.linesAt, List.map_cons, List.map_map, Section.written]
      refine congr (congrArg List.cons ?_) ?_
      · exact hheader
      · show (s.lines.zipIdx (first + 1)).map
          ((fun line : String => indent.text ++ Source.escape line.toList) ∘ Prod.fst) = _
        rw [← List.map_map, List.zipIdx_map_fst]
    rw [layout, List.map_append, written_layout, hlines, List.flatMap_cons]

/-- Every line of a layout is a header or a line of a section. -/
theorem mem_layout {line : Source.Line} : ∀ {first : Nat} {sections : List Section},
    line ∈ layout indent first sections →
    ∃ s : Section, (line.margin = [] ∧ line.body = s.header.toList ++ [':']) ∨
      line.margin = indent.text ∧ ∃ text ∈ s.lines, line.body = text.toList
  | _, [], h => by cases h
  | first, s :: rest, h => by
    rw [layout, Section.linesAt, List.cons_append, List.mem_cons, List.mem_append] at h
    rcases h with rfl | h | h
    · exact ⟨s, .inl ⟨rfl, rfl⟩⟩
    · obtain ⟨⟨text, number⟩, hmem, rfl⟩ := List.mem_map.1 h
      exact ⟨s, .inr ⟨rfl, text, List.fst_mem_of_mem_zipIdx hmem, rfl⟩⟩
    · exact mem_layout h

/-- A script is indented with nothing but the one character. -/
theorem margin_layout {line : Source.Line} {first : Nat} {sections : List Section}
    (h : line ∈ layout indent first sections) : ∀ d ∈ line.margin, d = indent.char := by
  obtain ⟨s, ⟨hmargin, -⟩ | ⟨hmargin, -⟩⟩ := mem_layout indent h
  · rw [hmargin]
    nofun
  · rw [hmargin]
    exact fun d hd => List.eq_of_mem_replicate hd

/-- What is written in a line stands for itself. -/
theorem body_layout {line : Source.Line} {first : Nat} {sections : List Section}
    (h : line ∈ layout indent first sections) :
    line.body ≠ [] ∧ Text.trim line.body = line.body ∧ '\n' ∉ line.body := by
  obtain ⟨s, ⟨-, hbody⟩ | ⟨-, text, htext, hbody⟩⟩ := mem_layout indent h
  · have hhead : ∀ c ∈ (s.header.toList ++ [':']).head?, Text.isBlank c = false := by
      intro c hc
      rw [s.toList_header] at hc
      obtain rfl : 'o' = c := Option.some.inj hc
      rfl
    have hlast : ∀ c ∈ (s.header.toList ++ [':']).getLast?, Text.isBlank c = false := by
      intro c hc
      rw [List.getLast?_concat] at hc
      obtain rfl : ':' = c := Option.some.inj hc
      rfl
    rw [hbody]
    refine ⟨List.concat_ne_nil _ _, Text.trim_eq_self_iff.2 ⟨hhead, hlast⟩, fun hfeed => ?_⟩
    rcases List.mem_append.1 hfeed with hfeed | hfeed
    · exact s.not_mem_header.2 hfeed
    · revert hfeed
      decide
  · have hline := s.isLine text htext
    rw [hbody]
    exact ⟨fun hnil => hline.nonempty (String.toList_eq_nil_iff.1 hnil), hline.trimmed,
      hline.noFeed⟩

/-- **Every line of a script that is written counts.** -/
theorem significant_render (sections : List Section) :
    Source.significant (render indent sections).toList = layout indent 1 sections := by
  rw [render, String.toList_ofList, ← written_layout indent 1]
  refine Source.significant_unlines (fun line h => ?_) (fun line h => ?_)
    (numbered_layout indent 1 sections)
  · obtain ⟨hne, htrim, -⟩ := body_layout indent h
    exact ⟨fun d hd => margin_layout indent h d hd ▸ indent.blank, hne, htrim⟩
  · exact ⟨fun hfeed => indent.inLine (margin_layout indent h _ hfeed).symm,
      (body_layout indent h).2.2⟩

/-! ## Blocks -/

theorem lays_lines : ∀ (lines : List String) (first : Nat), (∀ line ∈ lines, IsLine line) →
    Source.Lays indent.width
      ((lines.zipIdx first).map fun (line, number) => .entry number line)
      ((lines.zipIdx first).map fun (line, number) => ⟨number, indent.text, line.toList⟩)
  | [], _, _ => .nil
  | line :: rest, first, h => by
    obtain ⟨hline, hrest⟩ := List.forall_mem_cons.1 h
    have hmargin :
        (⟨first, indent.text, line.toList⟩ : Source.Line).margin.length = indent.width :=
      List.length_replicate
    have hentry := Source.Lays.entry hmargin (Text.stripLast?_eq_none hline.noColon)
      (lays_lines rest (first + 1) hrest)
    rw [String.ofList_toList] at hentry
    exact hentry

/-- The lines of a script lay out its blocks. -/
theorem lays_layout : ∀ (first : Nat) (sections : List Section),
    Source.Lays 0 (nodes first sections) (layout indent first sections)
  | _, [] => .nil
  | first, s :: rest => by
    have hmargin : (⟨first, [], s.header.toList ++ [':']⟩ : Source.Line).margin.length = 0 := rfl
    have hblock := Source.Lays.block hmargin (Text.stripLast?_concat ':' s.header.toList)
      indent.deep (lays_lines indent s.lines (first + 1) s.isLine)
      (lays_layout (first + 1 + s.lines.length) rest)
    rw [s.trimEnd_header, String.ofList_toList] at hblock
    exact hblock

/-- **A script that is written is read again**, and no line of it is skipped. -/
theorem read_render (sections : List Section) :
    Source.read (render indent sections) = ⟨[], .ok (nodes 1 sections)⟩ := by
  have hlines := significant_render indent sections
  refine Source.read_of_lays (c := indent.char) ?_ ?_
  · rw [hlines]
    exact lays_layout indent 1 sections
  · rw [hlines]
    exact fun line h => margin_layout indent h

/-! ## Triggers -/

/-- The trigger that a section stands for. -/
def Section.trigger (script : Path) (id : TriggerId) (s : Section) : Trigger :=
  { id, name := s.header, script, kinds := s.kinds, tier := s.tier
    body := s.lines.map (statement script) }

theorem statements_entries (script : Path) : ∀ (lines : List String) (first : Nat),
    statements script ((lines.zipIdx first).map fun (line, number) => .entry number line)
      = .ok (lines.map (statement script))
  | [], _ => rfl
  | line :: rest, first => by
    rw [List.zipIdx_cons, List.map_cons, statements, statements_entries script rest]
    rfl

theorem trigger_node (script : Path) (id : TriggerId) (first : Nat) (s : Section) :
    Demo.trigger catalog script id (s.node first) = .ok (s.trigger script id) := by
  have hknown : s.kinds.find? (fun kind => !catalog.contains kind) = none := by
    refine List.find?_eq_none.2 fun kind hkind => ?_
    simp [s.declared kind hkind]
  simp only [Section.node, Demo.trigger, s.read_header, hknown, statements_entries]
  rfl

/-- **The blocks compile to the triggers of the sections**, which are numbered one after another. -/
theorem structuresOf_compileAll (script : Path) : ∀ (sections : List Section) (id first : Nat),
    Construct.structuresOf (Construct.compileAll grammar catalog script id (nodes first sections))
      = (sections.zipIdx id).map fun (s, id) => { trigger := s.trigger script id }
  | [], _, _ => rfl
  | s :: rest, id, first => by
    have hcompile : grammar.compile catalog script id (s.node first)
        = { result := .ok (some { trigger := s.trigger script id }) } := by
      simp only [grammar, trigger_node]
    have ih := structuresOf_compileAll script rest (id + 1) (first + 1 + s.lines.length)
    rw [nodes, Construct.compileAll, hcompile, List.zipIdx_cons, List.map_cons, ← ih]
    rfl

end EventScripts.Demo
