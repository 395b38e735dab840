import EventScripts.Proofs.Source.Outline
import Mathlib.Data.List.Forall2
/-!
# What becomes of the lines that count

A line that counts is placed into the sections that are open, or it is skipped
(`Outline.add_cases`). The lines that have been placed lay out what has been read
so far (`Outline.Holds`): the nodes at the top, and then the open sections, each
behind the line that opens it and with its own lines so far. A section that is
closed joins the layout of the next one further out (`Holds.close`), so that in the
end the lines that have been placed lay out the forest (`exists_placed`).
-/

namespace EventScripts.Source

theorem Lays.append {n : Nat} {nodes more : List Node} {lines others : List Line}
    (h : Lays n nodes lines) (hm : Lays n more others) :
    Lays n (nodes ++ more) (lines ++ others) := by
  induction h with
  | nil => exact hm
  | entry hmargin hbody _ ih => exact .entry hmargin hbody (ih hm)
  | block hmargin hbody hdeeper hchildren _ _ ih =>
    rw [List.cons_append, List.append_assoc]
    exact .block hmargin hbody hdeeper hchildren (ih hm)

namespace Outline

variable {roots done : List Node} {stack outer : List OpenBlock} {block : OpenBlock}
  {kept : List Line} {n : Nat}

/-- The innermost section has the indentation for what is in it, or none is open and it is that of
the top. -/
def Fixed (n : Nat) : List OpenBlock → Prop
  | [] => n = 0
  | block :: _ => block.indent < n ∧ block.childIndent = some n

theorem Fixed.eq {m : Nat} (h : Fixed n stack) (hm : Fits m stack) : m = n := by
  cases stack with
  | nil => exact hm.trans h.symm
  | cons block outer =>
    have hchild := hm.2
    rw [h.2] at hchild
    exact hchild.symm

theorem fixed_fixIndent (h : Fits n stack) : Fixed n (fixIndent n stack) := by
  cases stack with
  | nil => exact h
  | cons block outer => exact ⟨h.1, rfl⟩

/-- The lines lay out what has been read: the nodes at the top, and the sections that are open.
`done` are the nodes that belong into the innermost section next. -/
inductive Holds (roots : List Node) : List OpenBlock → List Node → List Line → Prop where
  | top {done : List Node} {kept : List Line} (h : Lays 0 (roots ++ done) kept) :
    Holds roots [] done kept
  | inside {block : OpenBlock} {outer : List OpenBlock} {done : List Node} {before own : List Line}
    {line : Line} {key : List Char} (houter : Holds roots outer [] before)
    (hfixed : Fixed block.indent outer) (hmargin : line.margin.length = block.indent)
    (hbody : Text.stripLast? ':' line.body = some key) (hline : block.line = line.number)
    (hkey : block.key = String.ofList (Text.trimEnd key)) (hdeeper : ∃ m, Fits m (block :: outer))
    (hown : ∀ m, Fits m (block :: outer) → Lays m (block.children ++ done) own) :
    Holds roots (block :: outer) done (before ++ line :: own)

namespace Holds

/-- Further lines lay out what comes next in the innermost section. -/
theorem receive {nodes : List Node} {lines : List Line} (h : Holds roots stack [] kept)
    (hfixed : Fixed n stack) (hlays : Lays n nodes lines) :
    Holds roots stack nodes (kept ++ lines) := by
  cases h with
  | top h =>
    obtain rfl : n = 0 := hfixed
    rw [List.append_nil] at h
    exact .top (h.append hlays)
  | inside houter hin hmargin hbody hline hkey hdeeper hown =>
    rw [List.append_assoc, List.cons_append]
    refine .inside houter hin hmargin hbody hline hkey hdeeper fun m hm => ?_
    obtain rfl := hfixed.eq hm
    have h := hown m hm
    rw [List.append_nil] at h
    exact h.append hlays

/-- A section is closed: it belongs into the next one further out. -/
theorem closeOne (h : Holds roots (block :: outer) done kept) :
    Holds roots outer [{ block with children := block.children ++ done }.node] kept := by
  cases h with
  | inside houter hfixed hmargin hbody hline hkey hdeeper hown =>
    obtain ⟨m, hm⟩ := hdeeper
    have hlays := Lays.block hmargin hbody hm.1 (hown m hm) .nil
    rw [← hline, ← hkey, List.append_nil] at hlays
    exact houter.receive hfixed hlays

/-- **Closing sections** changes nothing about the lines. -/
theorem close (h : Holds roots stack done kept) (n : Nat) :
    Holds (roots ++ (close n stack done).2) (close n stack done).1 [] kept := by
  induction stack generalizing done with
  | nil =>
    cases h with
    | top h => exact .top (by rwa [List.append_nil])
  | cons block outer ih =>
    rw [Source.close]
    split
    · exact ih h.closeOne
    · rw [List.append_nil]
      cases h with
      | inside houter hfixed hmargin hbody hline hkey hdeeper hown =>
        refine .inside houter hfixed hmargin hbody hline hkey hdeeper fun m hm => ?_
        rw [List.append_nil]
        exact hown m hm

theorem fixIndent (h : Holds roots stack [] kept) (hfits : Fits n stack) :
    Holds roots (fixIndent n stack) [] kept := by
  cases h with
  | top h => exact .top h
  | inside houter hfixed hmargin hbody hline hkey _ hown =>
    have hkept := fixed_fixIndent hfits
    refine .inside houter hfixed hmargin hbody hline hkey ⟨n, hkept.1, rfl⟩ fun m hm => ?_
    obtain rfl := hkept.eq hm
    exact hown m hfits

/-- A line that fits is placed behind the others. -/
theorem place {line : Line} (h : Holds roots stack [] kept)
    (hfits : Fits line.margin.length stack) :
    Holds (place (Outline.fixIndent line.margin.length stack) roots line).2
      (place (Outline.fixIndent line.margin.length stack) roots line).1 [] (kept ++ [line]) := by
  have hfixed := fixed_fixIndent hfits
  have hholds := h.fixIndent hfits
  unfold Outline.place
  cases hbody : Text.stripLast? ':' line.body with
  | some key =>
    exact .inside hholds hfixed rfl hbody rfl rfl ⟨_, Nat.lt_succ_self _, rfl⟩ fun _ _ => .nil
  | none =>
    -- an entry is put into the innermost section as a section is that is closed
    have hentry := (hholds.receive hfixed (.entry rfl hbody .nil)).close line.margin.length
    generalize Outline.fixIndent line.margin.length stack = stack at hfixed hentry
    cases stack with
    | nil => exact hentry
    | cons block outer =>
      rw [Source.close, if_neg (Nat.not_le.2 hfixed.1), List.append_nil] at hentry
      exact hentry

end Holds

/-! ## One line -/

theorem indent_lt_of_close {n : Nat} : ∀ {stack : List OpenBlock} {done : List Node},
    (close n stack done).1 = block :: outer → block.indent < n
  | [], _, h => by cases h
  | b :: bs, done, h => by
    rw [close] at h
    split at h
    · exact indent_lt_of_close h
    · next hn =>
      cases h
      exact Nat.not_le.1 hn

variable {outline next last : Outline} {line : Line}

/-- **What a line comes to**: it is placed where it fits, or skipped and reported. -/
theorem add_cases (h : outline.add line = some next) :
    (Fits line.margin.length (outline.settled line.margin.length).1 ∧
      next.skips = outline.skips ∧ (next.stack, next.roots) = place
        (fixIndent line.margin.length (outline.settled line.margin.length).1)
        (outline.settled line.margin.length).2 line) ∨
    ∃ expected, expected ≠ line.margin.length ∧
      next.skips = outline.skips ++ [⟨line.number, expected, line.margin.length⟩] ∧
      (next.stack, next.roots) = outline.settled line.margin.length := by
  obtain ⟨indentChar, -, h⟩ := Option.map_eq_some_iff.1 h
  unfold settled
  simp only at h
  have hindent : ∀ block outer, (close line.margin.length outline.stack []).1 = block :: outer →
      block.indent < line.margin.length := fun _ _ => indent_lt_of_close
  generalize close line.margin.length outline.stack [] = closed at h hindent
  obtain ⟨stack, top⟩ := closed
  cases stack with
  | nil =>
    simp only at h
    split at h
    · next hfits =>
      subst h
      exact .inl ⟨hfits, rfl, rfl⟩
    · next hfits =>
      subst h
      exact .inr ⟨0, Ne.symm hfits, rfl, rfl⟩
  | cons block outer =>
    simp only at h
    split at h
    · next hfits =>
      subst h
      refine .inl ⟨⟨hindent block outer rfl, hfits.symm⟩, rfl, ?_⟩
      simp only [fixIndent, ← hfits]
    · next hfits =>
      subst h
      refine .inr ⟨_, Ne.symm hfits, rfl, ?_⟩
      -- the section has had an indentation for what is in it before
      obtain ⟨indent, childIndent, number, key, children⟩ := block
      cases childIndent with
      | none => exact absurd rfl hfits
      | some expected => rfl

theorem Holds.add (h : Holds outline.roots outline.stack [] kept)
    (hadd : outline.add line = some next) :
    (next.skips = outline.skips ∧ Holds next.roots next.stack [] (kept ++ [line])) ∨
    ∃ expected, expected ≠ line.margin.length ∧
      next.skips = outline.skips ++ [⟨line.number, expected, line.margin.length⟩] ∧
      Holds next.roots next.stack [] kept := by
  have hsettled : Holds (outline.settled line.margin.length).2
      (outline.settled line.margin.length).1 [] kept := h.close line.margin.length
  rcases add_cases hadd with ⟨hfits, hskips, hplace⟩ | ⟨expected, hne, hskips, hstack⟩
  · have hplaced := hsettled.place hfits
    rw [← hplace] at hplaced
    exact .inl ⟨hskips, hplaced⟩
  · rw [← hstack] at hsettled
    exact .inr ⟨expected, hne, hskips, hsettled⟩

/-! ## All lines -/

/-- A line that has been skipped is one that was expected at another indentation. -/
def Skips (skip : Skip) (line : Line) : Prop :=
  skip.line = line.number ∧ skip.found = line.margin.length ∧ skip.expected ≠ skip.found

/-- **Every line is either placed or skipped**; those that are placed lay out what has been read. -/
theorem Holds.addAll : ∀ {lines : List Line} {outline : Outline} {kept : List Line},
    Holds outline.roots outline.stack [] kept → outline.addAll lines = (last, none) →
    ∃ placed skipped skips, Holds last.roots last.stack [] (kept ++ placed) ∧
      placed.Sublist lines ∧ (placed ++ skipped).Perm lines ∧
      last.skips = outline.skips ++ skips ∧ List.Forall₂ Skips skips skipped
  | [], outline, kept, h, hall => by
    cases hall
    exact ⟨[], [], [], by rwa [List.append_nil], .slnil, .nil, (List.append_nil _).symm, .nil⟩
  | line :: lines, outline, kept, h, hall => by
    rw [Outline.addAll] at hall
    cases hadd : outline.add line with
    | none =>
      rw [hadd] at hall
      cases hall
    | some next =>
      rw [hadd] at hall
      rcases h.add hadd with ⟨hskips, hholds⟩ | ⟨expected, hne, hskips, hholds⟩
      · obtain ⟨placed, skipped, skips, hlast, hsub, hperm, hmore, hall⟩ := hholds.addAll hall
        rw [List.append_assoc] at hlast
        exact ⟨line :: placed, skipped, skips, hlast, hsub.cons_cons line, hperm.cons line,
          hskips ▸ hmore, hall⟩
      · obtain ⟨placed, skipped, skips, hlast, hsub, hperm, hmore, hall⟩ := hholds.addAll hall
        refine ⟨placed, line :: skipped, ⟨line.number, expected, line.margin.length⟩ :: skips,
          hlast, hsub.cons line, List.perm_middle.trans (hperm.cons line), ?_,
          .cons ⟨rfl, rfl, hne⟩ hall⟩
        rw [hmore, hskips, List.append_assoc]
        rfl

end Outline

/-- **The lines that count are placed or skipped**, and those that are placed lay out the forest. -/
theorem exists_placed {text : String} {skips : List Skip} {forest : List Node}
    (h : read text = ⟨skips, .ok forest⟩) : ∃ placed skipped, Lays 0 forest placed ∧
      placed.Sublist (significant text.toList) ∧
      (placed ++ skipped).Perm (significant text.toList) ∧
      List.Forall₂ Outline.Skips skips skipped := by
  unfold read at h
  generalize hall : Outline.addAll {} (significant text.toList) = result at h
  obtain ⟨last, fault⟩ := result
  cases fault with
  | some line => cases h
  | none =>
    cases h
    have hstart : Outline.Holds [] [] [] [] := .top .nil
    obtain ⟨placed, skipped, skips, hlast, hsub, hperm, hskips, hskipped⟩ := hstart.addAll hall
    obtain ⟨hclosed, hnone⟩ := closeAll_eq last.stack []
    have hforest := hlast.close 0
    rw [hnone, ← hclosed] at hforest
    refine ⟨placed, skipped, ?_, hsub, hperm, hskips ▸ hskipped⟩
    cases hforest with
    | top hlays =>
      rw [List.append_nil] at hlays
      exact hlays

end EventScripts.Source
