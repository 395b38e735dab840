import EventScripts.Proofs.Source.Comment
/-!
# Laying out a forest

The lines that lay out a forest (`Lays`) are read as that forest
(`read_of_lays`), whichever indentation each section has chosen for what is in
it, as long as it is a deeper one.

An outline keeps the sections open that might go on, and closes them only when a
line comes that does not belong to them. What it stands for at an indentation is
therefore what it is once the deeper sections are closed (`Outline.settled`). To
that a node of the forest is added at the end, wherever its own lines have left
the sections open (`addAll_lays`); the induction is on the layout.
-/

namespace EventScripts.Source

/-- The lines lay out the forest at an indentation. -/
inductive Lays : Nat → List Node → List Line → Prop where
  | nil {n : Nat} : Lays n [] []
  | entry {n : Nat} {line : Line} {rest : List Node} {lines : List Line}
      (hmargin : line.margin.length = n) (hbody : Text.stripLast? ':' line.body = none)
      (hrest : Lays n rest lines) :
      Lays n (.entry line.number (String.ofList line.body) :: rest) (line :: lines)
  | block {n deeper : Nat} {line : Line} {key : List Char} {children rest : List Node}
      {own lines : List Line} (hmargin : line.margin.length = n)
      (hbody : Text.stripLast? ':' line.body = some key) (hdeeper : n < deeper)
      (hchildren : Lays deeper children own) (hrest : Lays n rest lines) :
      Lays n (.block line.number (String.ofList (Text.trimEnd key)) children :: rest)
        (line :: own ++ lines)

/-! ## Closing sections -/

/-- Sections that are left open when deeper ones are closed are closed later as they would be. -/
theorem close_close {n m : Nat} (h : n ≤ m) : ∀ (stack : List OpenBlock) (done : List Node),
    close n stack done = ((close n (close m stack done).1 []).1,
      (close m stack done).2 ++ (close n (close m stack done).1 []).2)
  | [], done => by simp only [close, List.append_nil]
  | block :: outer, done => by
    by_cases hm : m ≤ block.indent
    · have hn : n ≤ block.indent := Nat.le_trans h hm
      simp only [close, if_pos hm, if_pos hn]
      exact close_close h outer _
    · simp only [close, if_neg hm, List.append_nil, List.nil_append]

theorem closeAll_eq : ∀ (stack : List OpenBlock) (done : List Node),
    closeAll stack done = (close 0 stack done).2 ∧ (close 0 stack done).1 = []
  | [], _ => ⟨rfl, rfl⟩
  | block :: outer, done => by
    simp only [closeAll, close, if_pos (Nat.zero_le block.indent)]
    exact closeAll_eq outer _

namespace Outline

variable {outline last : Outline} {n : Nat} {line : Line} {c : Char}

/-- What the outline stands for at an indentation: the sections that are open there, and the nodes
at the top. -/
def settled (n : Nat) (outline : Outline) : List OpenBlock × List Node :=
  ((close n outline.stack []).1, outline.roots ++ (close n outline.stack []).2)

/-- The innermost section has the indentation for what is in it. -/
def fixIndent (n : Nat) : List OpenBlock → List OpenBlock
  | [] => []
  | block :: outer => { block with childIndent := some n } :: outer

/-- A node is added to the innermost section, or at the top if none is open. -/
def receive (n : Nat) (state : List OpenBlock × List Node) (node : Node) :
    List OpenBlock × List Node :=
  match state.1 with
  | [] => ([], state.2 ++ [node])
  | block :: outer =>
    ({ block with childIndent := some n, children := block.children ++ [node] } :: outer, state.2)

/-- A line at the indentation is one of the innermost section, or at the top if none is open. -/
def Fits (n : Nat) : List OpenBlock → Prop
  | [] => n = 0
  | block :: _ => block.indent < n ∧ block.childIndent.getD n = n

theorem fits_receive {state : List OpenBlock × List Node} (h : Fits n state.1) (node : Node) :
    Fits n (receive n state node).1 := by
  obtain ⟨stack, roots⟩ := state
  cases stack with
  | nil => exact h
  | cons block outer => exact ⟨h.1, rfl⟩

/-- The lines so far are indented with nothing but the character. -/
def Uses (c : Char) (outline : Outline) : Prop := ∀ d ∈ outline.indentChar, d = c

theorem exists_indentWith (h : Uses c outline) (hmargin : ∀ d ∈ line.margin, d = c) :
    ∃ indentChar : Option Char, indentWith outline.indentChar line.margin = some indentChar ∧
      ∀ d ∈ indentChar, d = c := by
  have hfirst : ∀ d ∈ outline.indentChar.or line.margin.head?, d = c := by
    intro d hd
    rcases Option.or_eq_some_iff.1 hd with hd | ⟨-, hd⟩
    · exact h d hd
    · exact hmargin d (List.mem_of_mem_head? hd)
  unfold indentWith
  cases hd : outline.indentChar.or line.margin.head? with
  | none => exact ⟨none, rfl, nofun⟩
  | some d =>
    obtain rfl := hfirst d hd
    have hall : line.margin.all (· == d) = true :=
      List.all_eq_true.2 fun e he => beq_iff_eq.2 (hmargin e he)
    exact ⟨some d, if_pos hall, fun e he => (Option.some.inj he).symm⟩

/-- What a line that fits is placed into. -/
theorem exists_add (huses : Uses c outline) (hmargin : ∀ d ∈ line.margin, d = c)
    (hfits : Fits line.margin.length (outline.settled line.margin.length).1) :
    ∃ last, outline.add line = some last ∧ last.Uses c ∧ last.skips = outline.skips ∧
      (last.stack, last.roots) = place
        (fixIndent line.margin.length (outline.settled line.margin.length).1)
        (outline.settled line.margin.length).2 line := by
  obtain ⟨indentChar, hchar, hsame⟩ := exists_indentWith huses hmargin
  simp only [add, hchar, Option.map_some]
  unfold settled at hfits ⊢
  generalize close line.margin.length outline.stack [] = closed at hfits ⊢
  obtain ⟨stack, top⟩ := closed
  cases stack with
  | nil =>
    have hzero : line.margin.length = 0 := hfits
    refine ⟨_, rfl, ?_, ?_, ?_⟩
    all_goals simp only [hzero, if_true, fixIndent]
    exact hsame
  | cons block outer =>
    obtain ⟨-, hexpected⟩ := hfits
    refine ⟨_, rfl, ?_, ?_, ?_⟩
    all_goals simp only [hexpected, if_true, fixIndent]
    exact hsame

/-! ## Lines in turn -/

theorem addAll_append : ∀ {lines : List Line} {outline mid : Outline},
    outline.addAll lines = (mid, none) → ∀ more, outline.addAll (lines ++ more) = mid.addAll more
  | [], _, _, h, _ => by
    cases h
    rfl
  | line :: lines, outline, mid, h, more => by
    rw [addAll] at h
    rw [List.cons_append, addAll]
    cases hadd : outline.add line with
    | none =>
      rw [hadd] at h
      cases h
    | some next =>
      rw [hadd] at h
      exact addAll_append h more

/-- Closing the sections further in makes no difference to what is settled further out. -/
theorem settled_eq {m : Nat} (h : n ≤ m) (outline : Outline) : outline.settled n
    = ((close n (outline.settled m).1 []).1,
      (outline.settled m).2 ++ (close n (outline.settled m).1 []).2) := by
  simp only [settled, close_close h outline.stack, List.append_assoc]

/-- Nothing is closed where a line fits. -/
theorem settled_of_fits (h : Fits n outline.stack) :
    outline.settled n = (outline.stack, outline.roots) := by
  unfold settled
  cases hstack : outline.stack with
  | nil => simp only [close, List.append_nil]
  | cons block outer =>
    rw [hstack] at h
    simp only [close, if_neg (Nat.not_le.2 h.1), List.append_nil]

/-- A section that is closed is received further out. -/
theorem close_fixIndent {stack : List OpenBlock} (h : Fits n stack) (roots : List Node)
    (node : Node) : ((close n (fixIndent n stack) [node]).1,
      roots ++ (close n (fixIndent n stack) [node]).2) = receive n (stack, roots) node := by
  cases stack with
  | nil => rfl
  | cons block outer =>
    simp only [fixIndent, close, if_neg (Nat.not_le.2 h.1), List.append_nil]
    rfl

theorem exists_foldl_receive (m : Nat) (outer : List OpenBlock) (roots : List Node) :
    ∀ (children : List Node) (block : OpenBlock), ∃ childIndent,
      children.foldl (receive m) (block :: outer, roots)
        = ({ block with children := block.children ++ children, childIndent } :: outer, roots)
  | [], block => ⟨block.childIndent, by simp only [List.foldl_nil, List.append_nil]⟩
  | child :: children, block => by
    obtain ⟨childIndent, hrest⟩ := exists_foldl_receive m outer roots children
      { block with childIndent := some m, children := block.children ++ [child] }
    refine ⟨childIndent, ?_⟩
    rw [List.append_assoc] at hrest
    exact hrest

theorem foldl_receive_nil : ∀ (nodes roots : List Node),
    nodes.foldl (receive 0) ([], roots) = ([], roots ++ nodes)
  | [], roots => by rw [List.append_nil]; rfl
  | node :: nodes, roots => by
    rw [List.foldl_cons, receive, foldl_receive_nil nodes, List.append_assoc]
    rfl

/-- **An entry that fits** is received. -/
theorem exists_add_entry (huses : Uses c outline) (hmargin : ∀ d ∈ line.margin, d = c)
    (hfits : Fits line.margin.length (outline.settled line.margin.length).1)
    (hbody : Text.stripLast? ':' line.body = none) :
    ∃ next, outline.add line = some next ∧ next.Uses c ∧ next.skips = outline.skips ∧
      next.settled line.margin.length = receive line.margin.length
        (outline.settled line.margin.length) (.entry line.number (String.ofList line.body)) := by
  obtain ⟨next, hadd, huses, hskips, hplace⟩ := exists_add huses hmargin hfits
  have hreceived : (next.stack, next.roots) = receive line.margin.length
      (outline.settled line.margin.length) (.entry line.number (String.ofList line.body)) := by
    rw [hplace, place, hbody, receive]
    cases (outline.settled line.margin.length).1 <;> rfl
  have hfits' : Fits line.margin.length next.stack := by
    have hkept := fits_receive hfits (.entry line.number (String.ofList line.body))
    rwa [← hreceived] at hkept
  exact ⟨next, hadd, huses, hskips, (settled_of_fits hfits').trans hreceived⟩

/-- **A section that has been opened is received** with what has been added to it, once it is closed
by whatever comes next. -/
theorem settled_of_section {deeper : Nat} (hdeeper : n < deeper)
    {state : List OpenBlock × List Node} (hfits : Fits n state.1) {block : OpenBlock}
    (hindent : block.indent = n) {children : List Node}
    (h : outline.settled deeper
      = children.foldl (receive deeper) (block :: fixIndent n state.1, state.2)) :
    outline.settled n
      = receive n state (.block block.line block.key (block.children ++ children)) := by
  obtain ⟨childIndent, hfold⟩ :=
    exists_foldl_receive deeper (fixIndent n state.1) state.2 children block
  rw [settled_eq (Nat.le_of_lt hdeeper), h, hfold]
  simp only [close, hindent, Nat.le_refl, if_true, List.append_nil]
  exact close_fixIndent hfits _ _

/-- **Lines that lay out a forest** add its nodes to what the outline stands for. -/
theorem addAll_lays {nodes : List Node} {lines : List Line} (h : Lays n nodes lines) :
    ∀ {outline : Outline}, (∀ line ∈ lines, ∀ d ∈ line.margin, d = c) → outline.Uses c →
      Fits n (outline.settled n).1 →
      ∃ last, outline.addAll lines = (last, none) ∧ last.Uses c ∧ last.skips = outline.skips ∧
        last.settled n = nodes.foldl (receive n) (outline.settled n) := by
  induction h with
  | nil => exact fun _ huses _ => ⟨_, rfl, huses, rfl, rfl⟩
  | @entry n line rest lines hmargin hbody _ ih =>
    intro outline hmargins huses hfits
    subst hmargin
    obtain ⟨hown, hothers⟩ := List.forall_mem_cons.1 hmargins
    obtain ⟨next, hadd, huses, hskips, hnext⟩ := exists_add_entry huses hown hfits hbody
    obtain ⟨last, haddAll, huses, hskips', hlast⟩ :=
      ih hothers huses (hnext ▸ fits_receive hfits _)
    refine ⟨last, ?_, huses, hskips'.trans hskips, ?_⟩
    · rw [addAll, hadd]
      exact haddAll
    · rw [hlast, hnext]
      rfl
  | @block n deeper line key children rest own lines hmargin hbody hdeeper _ _ ihc ih =>
    intro outline hmargins huses hfits
    subst hmargin
    rw [List.cons_append, List.forall_mem_cons, List.forall_mem_append] at hmargins
    obtain ⟨hown, hchildren, hothers⟩ := hmargins
    obtain ⟨next, hadd, huses, hskips, hplace⟩ := exists_add huses hown hfits
    rw [place, hbody, Prod.mk.injEq] at hplace
    obtain ⟨hstack, hroots⟩ := hplace
    -- the section is open, and what is in it comes next
    have hopen : Fits deeper next.stack := by
      rw [hstack]
      exact ⟨hdeeper, rfl⟩
    have hsettled := settled_of_fits hopen
    obtain ⟨mid, haddOwn, huses, hskips', hmid⟩ := ihc hchildren huses (hsettled ▸ hopen)
    rw [hsettled, hstack, hroots] at hmid
    -- the next line closes it, if none does before
    have hclosed := settled_of_section hdeeper hfits rfl hmid
    obtain ⟨last, haddAll, huses, hskips'', hlast⟩ :=
      ih hothers huses (hclosed ▸ fits_receive hfits _)
    refine ⟨last, ?_, huses, hskips''.trans (hskips'.trans hskips), ?_⟩
    · rw [List.cons_append, addAll, hadd]
      exact (addAll_append haddOwn lines).trans haddAll
    · rw [hlast, hclosed]
      rfl

end Outline

/-- **The lines that lay out a forest are read as the forest**, and none of them is skipped. -/
theorem read_of_lays {text : String} {nodes : List Node} {c : Char}
    (h : Lays 0 nodes (significant text.toList))
    (hmargins : ∀ line ∈ significant text.toList, ∀ d ∈ line.margin, d = c) :
    read text = ⟨[], .ok nodes⟩ := by
  have huses : Outline.Uses c {} := nofun
  have hfits : Outline.Fits 0 (Outline.settled 0 {}).1 := rfl
  obtain ⟨last, haddAll, -, hskips, hlast⟩ := Outline.addAll_lays h hmargins huses hfits
  have hforest : last.forest = (last.settled 0).2 := by
    rw [Outline.forest, (closeAll_eq last.stack []).1]
    rfl
  rw [hlast] at hforest
  rw [read, haddAll]
  show Reading.mk last.skips (.ok last.forest) = _
  rw [hskips, hforest]
  exact congrArg (Reading.mk []) (congrArg Except.ok
    (congrArg Prod.snd (Outline.foldl_receive_nil nodes [])))

end EventScripts.Source
