import EventScripts.Proofs.Source.Placing
import EventScripts.Proofs.Text.Cut
import Mathlib.Data.List.Nodup
import Mathlib.Data.List.TakeWhile
/-!
# Nesting follows indentation

Of a text that is read without a fault, every line that is more than blanks and a
comment is one node or one report, and the nodes lie in each other as the lines are
indented: a node belongs to the section on the nearest line before it that has
become a node and is indented less deeply (`account_of_parse`).

The lines that have been placed lay out the forest (`exists_placed`), and all of
this can be read off a layout, by induction on it.

It is the indentation tree of `SPEC_FULL.md` §10.6 (SourceTree).
-/

namespace EventScripts.Source

/-- All nodes of a forest, in the order of the lines. -/
def allNodes (forest : List Node) : List Node := (Node.preorderList 0 forest).map (·.2)

mutual

theorem map_preorder (depth other : Nat) : ∀ node : Node,
    (Node.preorder depth node).map (·.2) = (Node.preorder other node).map (·.2)
  | .entry _ _ => rfl
  | .block line key children =>
    congrArg (Node.block line key children :: ·) (map_preorderList (depth + 1) (other + 1) children)

theorem map_preorderList (depth other : Nat) : ∀ forest : List Node,
    (Node.preorderList depth forest).map (·.2) = (Node.preorderList other forest).map (·.2)
  | [] => rfl
  | node :: rest => by
    rw [Node.preorderList, Node.preorderList, List.map_append, List.map_append,
      map_preorder depth other node, map_preorderList depth other rest]

end

theorem allNodes_entry (line : Nat) (key : String) (rest : List Node) :
    allNodes (.entry line key :: rest) = .entry line key :: allNodes rest := rfl

theorem allNodes_block (line : Nat) (key : String) (children rest : List Node) :
    allNodes (.block line key children :: rest)
      = .block line key children :: (allNodes children ++ allNodes rest) := by
  rw [allNodes, Node.preorderList, Node.preorder, List.map_append, List.map_cons,
    map_preorderList 1 0 children]
  rfl

/-! ## Lines of a text -/

/-- The line of a text with a number, counted from one, without its comment. -/
def lineAt (text : String) : Nat → List Char
  | 0 => []
  | n + 1 => stripComment ((Text.lines text.toList)[n]?.getD [])

/-- The line is more than blanks and a comment. -/
def isSignificant (text : String) (number : Nat) : Bool :=
  (lineAt text number).any (!Text.isBlank ·)

/-- How deeply a line is indented. -/
def indentation (text : String) (number : Nat) : Nat := (Text.margin (lineAt text number)).length

/-- The node stands for a line with a text: a section if the text ends in a colon. -/
def Shows (body : List Char) : Node → Prop
  | .entry _ key => key.toList = body ∧ body.getLast? ≠ some ':'
  | .block _ key _ => ∃ front, body = front ++ [':'] ∧ key.toList = Text.trimEnd front

/-- The problem is one with a line. -/
def isOn (number : Nat) : Problem → Bool
  | .malformed _ (some line) _ => line == number
  | _ => false

/-- What the lines of a text have come to. -/
structure Account (path : Path) (text : String) (problems : List Problem) (forest : List Node) :
    Prop where
  /-- A significant line is one node or one report, and no other line is either. -/
  once : ∀ number, (allNodes forest).countP (·.line == number) + problems.countP (isOn number)
    = if isSignificant text number then 1 else 0
  /-- A node says what its line says. -/
  shows : ∀ node ∈ allNodes forest, Shows (Text.trim (lineAt text node.line)) node
  /-- A report is one of a line that was expected at another indentation. -/
  reports : ∀ problem ∈ problems, ∃ line expected, expected ≠ indentation text line ∧
    problem = .malformed path (some line) (.unexpectedIndentation expected (indentation text line))
  increasing : ((allNodes forest).map Node.line).Pairwise (· < ·)
  top : ∀ node ∈ allNodes forest, indentation text node.line = 0 ↔ node ∈ forest
  /-- A node that is not at the top is in a section. -/
  inside : ∀ node ∈ allNodes forest, node ∉ forest →
    ∃ parent ∈ allNodes forest, node ∈ parent.children
  /-- That section is on the nearest line before it that is a node and indented less deeply. -/
  nearest : ∀ parent ∈ allNodes forest, ∀ child ∈ parent.children, parent.line < child.line ∧
    indentation text parent.line < indentation text child.line ∧
    ∀ other ∈ allNodes forest, parent.line < other.line → other.line < child.line →
      indentation text child.line ≤ indentation text other.line
  /-- What is in one section is indented equally. -/
  equal : ∀ parent ∈ allNodes forest, ∀ child ∈ parent.children, ∀ sibling ∈ parent.children,
    indentation text child.line = indentation text sibling.line

/-! ## Lines that count -/

theorem margin_trimEnd {cs : List Char} (h : Text.trimEnd cs ≠ []) :
    Text.margin (Text.trimEnd cs) = Text.margin cs := by
  -- the blanks that are cut off stand behind something else
  have hback : (cs.reverse.takeWhile Text.isBlank ++ cs.reverse.dropWhile Text.isBlank).reverse
      = cs := by
    rw [List.takeWhile_append_dropWhile, List.reverse_reverse]
  rw [List.reverse_append] at hback
  have hlast : ∃ c ∈ Text.trimEnd cs, ¬Text.isBlank c = true := by
    have hne : cs.reverse.dropWhile Text.isBlank ≠ [] := fun hnil =>
      h (by rw [Text.trimEnd, hnil, List.reverse_nil])
    have hhead := List.head_dropWhile_not Text.isBlank hne
    exact ⟨_, List.mem_reverse.2 (List.head_mem hne), by simp [hhead]⟩
  conv => rhs; rw [← hback]
  rw [Text.margin, Text.margin, List.takeWhile_append, if_neg]
  · rfl
  · intro hall
    obtain ⟨c, hc, hblank⟩ := hlast
    have hwhole := (List.takeWhile_prefix (p := Text.isBlank) (l := Text.trimEnd cs)).eq_of_length
      hall
    rw [← hwhole] at hc
    exact hblank (List.mem_takeWhile_imp hc)

theorem trimEnd_eq_nil_iff {cs : List Char} :
    Text.trimEnd cs = [] ↔ ∀ c ∈ cs, Text.isBlank c = true := by
  rw [Text.trimEnd, List.reverse_eq_nil_iff, List.dropWhile_eq_nil_iff]
  simp only [List.mem_reverse]

/-- A line that counts is not blank, and is cut into its indentation and the rest. -/
theorem line?_eq_some {number : Nat} {raw : List Char} {line : Line}
    (h : line? number raw = some line) : line.number = number ∧
      Text.trimEnd (stripComment raw) ≠ [] ∧ line.margin = Text.margin (stripComment raw) ∧
      line.body = Text.trim (stripComment raw) := by
  simp only [line?] at h
  split at h
  · cases h
  · next hne =>
    cases h
    rw [List.isEmpty_iff] at hne
    exact ⟨rfl, hne, margin_trimEnd hne, rfl⟩

/-- A line that counts is read from the line of the text with its number. -/
theorem exists_raw_of_mem {text : String} {line : Line} (h : line ∈ significant text.toList) :
    ∃ raw, lineAt text line.number = stripComment raw ∧ line? line.number raw = some line := by
  obtain ⟨⟨raw, number⟩, hmem, hread⟩ := List.mem_filterMap.1 h
  obtain ⟨hpositive, hraw⟩ := List.mk_mem_zipIdx_iff_le_and_getElem?_sub.1 hmem
  obtain ⟨n, rfl⟩ := Nat.exists_eq_add_of_le' hpositive
  have hnumber : line.number = n + 1 := (line?_eq_some hread).1
  refine ⟨raw, ?_, hnumber ▸ hread⟩
  rw [hnumber, lineAt, show (Text.lines text.toList)[n]? = some raw from hraw]
  rfl

theorem margin_of_mem {text : String} {line : Line} (h : line ∈ significant text.toList) :
    Text.margin (lineAt text line.number) = line.margin := by
  obtain ⟨raw, hline, hread⟩ := exists_raw_of_mem h
  rw [hline, (line?_eq_some hread).2.2.1]

/-- A line that counts is one of the text, cut into its indentation and the rest. -/
theorem mem_significant {text : String} {line : Line} (h : line ∈ significant text.toList) :
    isSignificant text line.number = true ∧ indentation text line.number = line.margin.length ∧
      Text.trim (lineAt text line.number) = line.body := by
  obtain ⟨raw, hline, hread⟩ := exists_raw_of_mem h
  obtain ⟨-, hne, -, hbody⟩ := line?_eq_some hread
  refine ⟨?_, by rw [indentation, margin_of_mem h], by rw [hline, hbody]⟩
  rw [isSignificant, hline]
  by_contra hnone
  refine hne (trimEnd_eq_nil_iff.2 fun c hc => ?_)
  by_contra hblank
  exact hnone (List.any_eq_true.2 ⟨c, hc, by simpa using hblank⟩)

/-- Every significant line counts. -/
theorem exists_significant {text : String} {number : Nat}
    (h : isSignificant text number = true) :
    ∃ line ∈ significant text.toList, line.number = number := by
  obtain ⟨c, hc, hblank⟩ := List.any_eq_true.1 h
  cases number with
  | zero => cases hc
  | succ n =>
    rw [lineAt] at hc
    cases hraw : (Text.lines text.toList)[n]? with
    | none =>
      rw [hraw] at hc
      cases hc
    | some raw =>
      rw [hraw] at hc
      have hne : (Text.trimEnd (stripComment raw)).isEmpty = false := by
        rw [List.isEmpty_eq_false_iff, Ne, trimEnd_eq_nil_iff]
        intro hall
        rw [hall c hc] at hblank
        cases hblank
      refine ⟨⟨n + 1, Text.margin (Text.trimEnd (stripComment raw)),
        Text.trimStart (Text.trimEnd (stripComment raw))⟩, ?_, rfl⟩
      refine List.mem_filterMap.2 ⟨(raw, n + 1), ?_, ?_⟩
      · exact List.mk_mem_zipIdx_iff_le_and_getElem?_sub.2 ⟨Nat.le_add_left 1 n, hraw⟩
      · simp only [line?, hne]
        rfl

theorem pairwise_significant (text : List Char) :
    ((significant text).map (·.number)).Pairwise (· < ·) := by
  have hnumbers : ((Text.lines text).zipIdx 1).Pairwise fun a b => a.2 < b.2 := by
    have hrange : (List.range' 1 (Text.lines text).length).Pairwise (· < ·) :=
      List.pairwise_lt_range'
    rw [← List.zipIdx_map_snd 1 (Text.lines text)] at hrange
    exact List.pairwise_map.1 hrange
  refine List.pairwise_map.2 (hnumbers.filterMap _ fun a b hlt l hl m hm => ?_)
  rw [(line?_eq_some hl).1, (line?_eq_some hm).1]
  exact hlt

/-! ## What a layout tells -/

/-- The nodes of a forest that is laid out are those of the lines, in order. -/
theorem Lays.lines_eq {n : Nat} {nodes : List Node} {lines : List Line} (h : Lays n nodes lines) :
    (allNodes nodes).map Node.line = lines.map (·.number) := by
  induction h with
  | nil => rfl
  | entry _ _ _ ih =>
    rw [allNodes_entry, List.map_cons, List.map_cons, ih]
    rfl
  | block _ _ _ _ _ ihc ih =>
    rw [allNodes_block, List.cons_append, List.map_cons, List.map_cons, List.map_append,
      List.map_append, ihc, ih]
    rfl

/-- What is said of every line of a layout, and of the node that it stands for, is said of every
node. -/
theorem Lays.forall_nodes {P : Line → Node → Prop} {n : Nat} {nodes : List Node}
    {lines : List Line} (h : Lays n nodes lines)
    (hentry : ∀ line ∈ lines, Text.stripLast? ':' line.body = none →
      P line (.entry line.number (String.ofList line.body)))
    (hblock : ∀ line ∈ lines, ∀ key children, Text.stripLast? ':' line.body = some key →
      P line (.block line.number (String.ofList (Text.trimEnd key)) children)) :
    ∀ node ∈ allNodes nodes, ∃ line ∈ lines, P line node := by
  induction h with
  | nil => nofun
  | @entry n line rest lines hmargin hbody _ ih =>
    rw [allNodes_entry]
    have hrest := ih (fun l hl => hentry l (List.mem_cons_of_mem _ hl))
      (fun l hl => hblock l (List.mem_cons_of_mem _ hl))
    refine List.forall_mem_cons.2 ⟨⟨line, List.mem_cons_self, hentry line List.mem_cons_self hbody⟩,
      fun node hnode => ?_⟩
    obtain ⟨l, hl, hp⟩ := hrest node hnode
    exact ⟨l, List.mem_cons_of_mem _ hl, hp⟩
  | @block n deeper line key children rest own lines hmargin hbody hdeeper _ _ ihc ih =>
    rw [allNodes_block]
    have hown := ihc (fun l hl => hentry l (by simp [hl])) (fun l hl => hblock l (by simp [hl]))
    have hrest := ih (fun l hl => hentry l (by simp [hl])) (fun l hl => hblock l (by simp [hl]))
    refine List.forall_mem_cons.2 ⟨⟨line, by simp, hblock line (by simp) key children hbody⟩,
      List.forall_mem_append.2 ⟨fun node hnode => ?_, fun node hnode => ?_⟩⟩
    · obtain ⟨l, hl, hp⟩ := hown node hnode
      exact ⟨l, by simp [hl], hp⟩
    · obtain ⟨l, hl, hp⟩ := hrest node hnode
      exact ⟨l, by simp [hl], hp⟩

theorem subset_allNodes : ∀ nodes : List Node, nodes ⊆ allNodes nodes
  | [] => List.Subset.refl _
  | .entry line key :: rest => by
    rw [allNodes_entry]
    exact List.cons_subset_cons _ (subset_allNodes rest)
  | .block line key children :: rest => by
    rw [allNodes_block]
    exact List.cons_subset_cons _
      (List.Subset.trans (subset_allNodes rest) (List.subset_append_right _ _))

theorem mem_or_mem_children : ∀ nodes : List Node, ∀ node ∈ allNodes nodes,
    node ∈ nodes ∨ ∃ parent ∈ allNodes nodes, node ∈ parent.children
  | [] => nofun
  | .entry line key :: rest => by
    rw [allNodes_entry]
    refine List.forall_mem_cons.2 ⟨.inl List.mem_cons_self, fun node hnode => ?_⟩
    exact (mem_or_mem_children rest node hnode).imp (List.mem_cons_of_mem _)
      fun ⟨parent, hparent, hchild⟩ => ⟨parent, List.mem_cons_of_mem _ hparent, hchild⟩
  | .block line key children :: rest => by
    rw [allNodes_block]
    refine List.forall_mem_cons.2 ⟨.inl List.mem_cons_self,
      List.forall_mem_append.2 ⟨fun node hnode => .inr ?_, fun node hnode => ?_⟩⟩
    · rcases mem_or_mem_children children node hnode with hchild | ⟨parent, hparent, hchild⟩
      · exact ⟨_, List.mem_cons_self, hchild⟩
      · exact ⟨parent, List.mem_cons_of_mem _ (List.mem_append_left _ hparent), hchild⟩
    · exact (mem_or_mem_children rest node hnode).imp (List.mem_cons_of_mem _)
        fun ⟨parent, hparent, hchild⟩ =>
          ⟨parent, List.mem_cons_of_mem _ (List.mem_append_right _ hparent), hchild⟩

theorem mem_of_mem_children : ∀ nodes : List Node, ∀ parent ∈ allNodes nodes,
    ∀ child ∈ parent.children, child ∈ allNodes nodes
  | [] => nofun
  | .entry line key :: rest => by
    rw [allNodes_entry]
    exact List.forall_mem_cons.2 ⟨nofun, fun parent hparent child hchild =>
      List.mem_cons_of_mem _ (mem_of_mem_children rest parent hparent child hchild)⟩
  | .block line key children :: rest => by
    rw [allNodes_block]
    refine List.forall_mem_cons.2 ⟨fun child hchild => List.mem_cons_of_mem _
        (List.mem_append_left _ (subset_allNodes children hchild)),
      List.forall_mem_append.2 ⟨fun parent hparent child hchild => List.mem_cons_of_mem _
        (List.mem_append_left _ (mem_of_mem_children children parent hparent child hchild)),
        fun parent hparent child hchild => List.mem_cons_of_mem _
          (List.mem_append_right _ (mem_of_mem_children rest parent hparent child hchild))⟩⟩

/-! ## Indentation in a layout -/

section

variable {n : Nat} {nodes : List Node} {lines : List Line} {indent : Nat → Nat}

theorem Lays.indent_eq (h : Lays n nodes lines)
    (hindent : ∀ line ∈ lines, indent line.number = line.margin.length) :
    ∀ node ∈ nodes, indent node.line = n := by
  induction h with
  | nil => nofun
  | entry hmargin _ _ ih =>
    have ⟨hline, hrest⟩ := List.forall_mem_cons.1 hindent
    exact List.forall_mem_cons.2 ⟨hline.trans hmargin, ih hrest⟩
  | block hmargin _ _ _ _ _ ih =>
    have ⟨hline, hrest⟩ := List.forall_mem_cons.1 hindent
    exact List.forall_mem_cons.2 ⟨hline.trans hmargin, ih (List.forall_mem_append.1 hrest).2⟩

/-- The nodes that are not at the top of a layout have a deeper indentation. -/
theorem Lays.mem_or_lt_indent (h : Lays n nodes lines)
    (hindent : ∀ line ∈ lines, indent line.number = line.margin.length) :
    ∀ node ∈ allNodes nodes, node ∈ nodes ∨ n < indent node.line := by
  induction h with
  | nil => nofun
  | entry _ _ _ ih =>
    have ⟨_, hrest⟩ := List.forall_mem_cons.1 hindent
    rw [allNodes_entry]
    exact List.forall_mem_cons.2 ⟨.inl List.mem_cons_self, fun node hnode =>
      (ih hrest node hnode).imp_left (List.mem_cons_of_mem _)⟩
  | block _ _ hdeeper hchildren _ ihc ih =>
    have ⟨_, hbelow⟩ := List.forall_mem_cons.1 hindent
    have ⟨hown, hrest⟩ := List.forall_mem_append.1 hbelow
    rw [allNodes_block]
    refine List.forall_mem_cons.2 ⟨.inl List.mem_cons_self,
      List.forall_mem_append.2 ⟨fun node hnode => .inr ?_, fun node hnode =>
        (ih hrest node hnode).imp_left (List.mem_cons_of_mem _)⟩⟩
    rcases ihc hown node hnode with hmem | hlt
    · rwa [hchildren.indent_eq hown node hmem]
    · exact hdeeper.trans hlt

/-- What is in a section is indented equally, and more deeply than the section. -/
theorem Lays.exists_deeper (h : Lays n nodes lines)
    (hindent : ∀ line ∈ lines, indent line.number = line.margin.length) :
    ∀ parent ∈ allNodes nodes, ∃ deeper, indent parent.line < deeper ∧
      ∀ child ∈ parent.children, indent child.line = deeper := by
  induction h with
  | nil => nofun
  | entry _ _ _ ih =>
    have ⟨_, hrest⟩ := List.forall_mem_cons.1 hindent
    rw [allNodes_entry]
    exact List.forall_mem_cons.2 ⟨⟨_, Nat.lt_succ_self _, nofun⟩, ih hrest⟩
  | block hmargin _ hdeeper hchildren _ ihc ih =>
    have ⟨hline, hbelow⟩ := List.forall_mem_cons.1 hindent
    have ⟨hown, hrest⟩ := List.forall_mem_append.1 hbelow
    rw [allNodes_block]
    refine List.forall_mem_cons.2 ⟨⟨_, ?_, hchildren.indent_eq hown⟩,
      List.forall_mem_append.2 ⟨ihc hown, ih hrest⟩⟩
    exact (hline.trans hmargin).trans_lt hdeeper

/-- A section stands before what is in it, and what is between the two is at least as deep as what
is in it. -/
theorem Lays.between (h : Lays n nodes lines)
    (hindent : ∀ line ∈ lines, indent line.number = line.margin.length)
    (hsorted : (allNodes nodes).Pairwise fun a b => a.line < b.line) :
    ∀ parent ∈ allNodes nodes, ∀ child ∈ parent.children, parent.line < child.line ∧
      ∀ other ∈ allNodes nodes, parent.line < other.line → other.line < child.line →
        indent child.line ≤ indent other.line := by
  induction h with
  | nil => nofun
  | @entry n line rest lines _ _ _ ih =>
    have ⟨_, hrest⟩ := List.forall_mem_cons.1 hindent
    rw [allNodes_entry] at hsorted ⊢
    have ⟨hfirst, hsorted⟩ := List.pairwise_cons.1 hsorted
    refine List.forall_mem_cons.2 ⟨nofun, fun parent hparent child hchild => ?_⟩
    have ⟨hlt, hall⟩ := ih hrest hsorted parent hparent child hchild
    refine ⟨hlt, List.forall_mem_cons.2 ⟨fun hafter _ => ?_, hall⟩⟩
    exact absurd hafter (Nat.lt_asymm (hfirst parent hparent))
  | @block n deeper line key children rest own lines _ _ _ hchildren _ ihc ih =>
    have ⟨_, hbelow⟩ := List.forall_mem_cons.1 hindent
    have ⟨hown, hrest⟩ := List.forall_mem_append.1 hbelow
    rw [allNodes_block] at hsorted ⊢
    have ⟨hfirst, hsorted⟩ := List.pairwise_cons.1 hsorted
    have ⟨hsortedc, hsortedr, hacross⟩ := List.pairwise_append.1 hsorted
    refine List.forall_mem_cons.2 ⟨fun child hchild => ?_,
      List.forall_mem_append.2 ⟨fun parent hparent child hchild => ?_,
        fun parent hparent child hchild => ?_⟩⟩
    · have hmem := subset_allNodes children hchild
      refine ⟨hfirst child (List.mem_append_left _ hmem),
        List.forall_mem_cons.2 ⟨fun hafter => absurd hafter (Nat.lt_irrefl _),
          List.forall_mem_append.2 ⟨fun other hother _ _ => ?_, fun other hother _ hbefore => ?_⟩⟩⟩
      · rw [hchildren.indent_eq hown child hchild]
        rcases hchildren.mem_or_lt_indent hown other hother with hmem | hlt
        · exact (hchildren.indent_eq hown other hmem).ge
        · exact hlt.le
      · exact absurd hbefore (Nat.lt_asymm (hacross child hmem other hother))
    · have ⟨hlt, hall⟩ := ihc hown hsortedc parent hparent child hchild
      have hmem := mem_of_mem_children children parent hparent child hchild
      refine ⟨hlt, List.forall_mem_cons.2 ⟨fun hafter _ => ?_,
        List.forall_mem_append.2 ⟨hall, fun other hother _ hbefore => ?_⟩⟩⟩
      · exact absurd hafter (Nat.lt_asymm (hfirst parent (List.mem_append_left _ hparent)))
      · exact absurd hbefore (Nat.lt_asymm (hacross child hmem other hother))
    · have ⟨hlt, hall⟩ := ih hrest hsortedr parent hparent child hchild
      refine ⟨hlt, List.forall_mem_cons.2 ⟨fun hafter _ => ?_,
        List.forall_mem_append.2 ⟨fun other hother hafter _ => ?_, hall⟩⟩⟩
      · exact absurd hafter (Nat.lt_asymm (hfirst parent (List.mem_append_right _ hparent)))
      · exact absurd hafter (Nat.lt_asymm (hacross other hother parent hparent))

end

/-! ## The account -/

theorem count_number_significant (text : String) (number : Nat) :
    ((significant text.toList).map (·.number)).count number
      = if isSignificant text number then 1 else 0 := by
  have hnodup : ((significant text.toList).map (·.number)).Nodup :=
    (pairwise_significant text.toList).imp Nat.ne_of_lt
  have hiff : number ∈ (significant text.toList).map (·.number) ↔ isSignificant text number := by
    refine ⟨fun hmem => ?_, fun h => List.mem_map.2 (exists_significant h)⟩
    obtain ⟨line, hline, rfl⟩ := List.mem_map.1 hmem
    exact (mem_significant hline).1
  rw [hnodup.count]
  simp only [hiff]

theorem shows_entry {line : Nat} {body : List Char} (h : Text.stripLast? ':' body = none) :
    Shows body (.entry line (String.ofList body)) := by
  refine ⟨String.toList_ofList, fun hlast => ?_⟩
  obtain ⟨front, rfl⟩ := List.getLast?_eq_some_iff.1 hlast
  rw [Text.stripLast?_concat] at h
  cases h

theorem shows_block {line : Nat} {body key : List Char} {children : List Node}
    (h : Text.stripLast? ':' body = some key) :
    Shows body (.block line (String.ofList (Text.trimEnd key)) children) := by
  have hlast : body.getLast? = some ':' := by
    by_contra hne
    rw [Text.stripLast?_eq_none hne] at h
    cases h
  obtain ⟨front, rfl⟩ := List.getLast?_eq_some_iff.1 hlast
  rw [Text.stripLast?_concat] at h
  obtain rfl := Option.some.inj h
  exact ⟨front, rfl, String.toList_ofList⟩

theorem lines_of_skipped {skips : List Skip} {skipped : List Line}
    (h : List.Forall₂ Outline.Skips skips skipped) :
    skips.map Skip.line = skipped.map (·.number) := by
  induction h with
  | nil => rfl
  | cons hskip _ ih => rw [List.map_cons, List.map_cons, hskip.1, ih]

theorem exists_skipped {skips : List Skip} {skipped : List Line}
    (h : List.Forall₂ Outline.Skips skips skipped) :
    ∀ skip ∈ skips, ∃ line ∈ skipped, Outline.Skips skip line := by
  induction h with
  | nil => nofun
  | cons hskip _ ih =>
    refine List.forall_mem_cons.2 ⟨⟨_, List.mem_cons_self, hskip⟩, fun skip hmem => ?_⟩
    obtain ⟨line, hline, hskips⟩ := ih skip hmem
    exact ⟨line, List.mem_cons_of_mem _ hline, hskips⟩

theorem countP_line (nodes : List Node) (number : Nat) :
    nodes.countP (·.line == number) = (nodes.map Node.line).count number := by
  rw [List.count, List.countP_map]
  rfl

theorem countP_isOn (path : Path) (skips : List Skip) (number : Nat) :
    (skips.map (Skip.problem path)).countP (isOn number)
      = (skips.map Skip.line).count number := by
  rw [List.count, List.countP_map, List.countP_map]
  rfl

/-- **What the lines of a text come to**, if it is read without a fault. -/
theorem account_of_parse {path : Path} {text : String} {problems : List Problem}
    {forest : List Node} (h : parse path text = (problems, .ok forest)) :
    Account path text problems forest := by
  obtain ⟨skips, hread, rfl⟩ : ∃ skips, read text = ⟨skips, .ok forest⟩ ∧
      problems = skips.map (Skip.problem path) := by
    unfold parse at h
    generalize read text = reading at h
    obtain ⟨skips, result⟩ := reading
    cases result with
    | error line => cases h
    | ok nodes =>
      cases h
      exact ⟨skips, rfl, rfl⟩
  obtain ⟨placed, skipped, hlays, hsub, hperm, hskipped⟩ := exists_placed hread
  have hcounts : ∀ line ∈ placed, line ∈ significant text.toList := fun line hline =>
    hsub.subset hline
  have hindent : ∀ line ∈ placed, indentation text line.number = line.margin.length :=
    fun line hline => (mem_significant (hcounts line hline)).2.1
  have hincreasing : ((allNodes forest).map Node.line).Pairwise (· < ·) := by
    rw [hlays.lines_eq]
    exact (pairwise_significant text.toList).sublist (hsub.map _)
  have hsorted := List.pairwise_map.1 hincreasing
  refine ⟨fun number => ?_, ?_, fun problem hproblem => ?_, hincreasing, fun node hnode => ?_,
    fun node hnode htop => ?_, fun parent hparent child hchild => ?_,
    fun parent hparent child hchild sibling hsibling => ?_⟩
  · -- the lines that are placed and those that are skipped are together those that count
    rw [← count_number_significant, ← (hperm.map (·.number)).count_eq, List.map_append,
      List.count_append, countP_line, countP_isOn, hlays.lines_eq, lines_of_skipped hskipped]
  · intro node hnode
    obtain ⟨line, hline, hnumber, hshows⟩ := hlays.forall_nodes
      (P := fun line node => node.line = line.number ∧ Shows line.body node)
      (fun line _ hbody => ⟨rfl, shows_entry hbody⟩)
      (fun line _ key children hbody => ⟨rfl, shows_block hbody⟩) node hnode
    rwa [hnumber, (mem_significant (hcounts line hline)).2.2]
  · obtain ⟨skip, hskip, rfl⟩ := List.mem_map.1 hproblem
    obtain ⟨line, hline, hnumber, hfound, hexpected⟩ := exists_skipped hskipped skip hskip
    have hmargin := (mem_significant (hperm.subset (List.mem_append_right _ hline))).2.1
    refine ⟨skip.line, skip.expected, ?_, ?_⟩
    · rwa [hnumber, hmargin, ← hfound]
    · rw [hnumber, hmargin, ← hfound, ← hnumber]
      rfl
  · refine ⟨fun hzero => ?_, hlays.indent_eq hindent node⟩
    exact (hlays.mem_or_lt_indent hindent node hnode).resolve_right (Nat.not_lt.2 hzero.le)
  · exact (mem_or_mem_children forest node hnode).resolve_left htop
  · obtain ⟨deeper, hlt, hall⟩ := hlays.exists_deeper hindent parent hparent
    have ⟨hbefore, hbetween⟩ := hlays.between hindent hsorted parent hparent child hchild
    exact ⟨hbefore, hlt.trans_eq (hall child hchild).symm, hbetween⟩
  · obtain ⟨deeper, _, hall⟩ := hlays.exists_deeper hindent parent hparent
    exact (hall child hchild).trans (hall sibling hsibling).symm

/-- Its first and its sixth line fit nowhere. -/
def uneven : String := "    stray\non load:\n  a:\n      b\n    # c\n   d\n  e\n"

def unevenProblems : List Problem :=
  [.malformed ⟨"uneven.sk"⟩ (some 1) (.unexpectedIndentation 0 4),
    .malformed ⟨"uneven.sk"⟩ (some 6) (.unexpectedIndentation 6 3)]

def unevenForest : List Node :=
  [.block 2 "on load" [.block 3 "a" [.entry 4 "b"], .entry 7 "e"]]

theorem account_of_parse_uneven :
    parse ⟨"uneven.sk"⟩ uneven = (unevenProblems, .ok unevenForest) ∧
      Account ⟨"uneven.sk"⟩ uneven unevenProblems unevenForest := by
  have h : parse ⟨"uneven.sk"⟩ uneven = (unevenProblems, .ok unevenForest) := by rfl
  exact ⟨h, account_of_parse h⟩

end EventScripts.Source
