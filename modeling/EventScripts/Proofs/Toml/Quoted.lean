import EventScripts.Toml.Quoted
import EventScripts.Toml.Writer
/-!
# Strings that are written

A string is read as the text that it was written for, whichever of the five ways to
write it has been taken (`readString_writeString`). Two things are told apart for
that: how single characters are written and read (`Escapes`), and how many quotes
in a row are part of a text over several lines, when those that close it may follow
them at once (`Closes`).
-/

namespace EventScripts.Toml

/-! ## Characters -/

theorem isPlain_of_not_needsEscape {c : Char} (h : needsEscape c = false) :
    isPlain c = true ∨ c = '\n' := by
  simp only [needsEscape, Bool.or_eq_false_iff, Bool.and_eq_false_iff, decide_eq_false_iff_not,
    bne_eq_false_iff_eq, beq_eq_false_iff_ne] at h
  obtain ⟨(hlow | rfl) | rfl, hdelete⟩ := h
  · left
    simp only [isPlain, Bool.or_eq_true, beq_iff_eq, Bool.and_eq_true, decide_eq_true_eq,
      bne_iff_ne]
    exact .inr ⟨by omega, hdelete⟩
  · exact .inl rfl
  · exact .inr rfl

/-- Four hexadecimal digits are read as the character that they stand for. -/
theorem scalarValue?_fourHex {c : Char} (h : needsEscape c = true) :
    scalarValue? (fourHex c.toNat) = some c := by
  have hbound : c.toNat < 128 := by
    simp only [needsEscape, Bool.or_eq_true, Bool.and_eq_true, decide_eq_true_eq, beq_iff_eq] at h
    omega
  have hall : ∀ n < 128, scalarValue? (fourHex n) = some (Char.ofNat n) := by decide +kernel
  rw [hall _ hbound, Char.ofNat_toNat]

/-- How characters are read between double quotes. Over several lines, a line feed stands for
itself. -/
structure Escapes (lines : Bool) (read : List Char → Reading) : Prop where
  plain {c : Char} (hquote : c ≠ '"') (hescape : c ≠ '\\') (hreturn : c ≠ '\r')
    (hplain : isPlain c = true ∨ lines = true ∧ c = '\n') (rest : List Char) :
    read (c :: rest) = consed (some c) (read rest)
  short {e c : Char} (h : escape? e = some c) (rest : List Char) :
    read ('\\' :: e :: rest) = consed (some c) (read rest)
  hex (a b c d : Char) (rest : List Char) :
    read ('\\' :: 'u' :: a :: b :: c :: d :: rest) = consed (scalarValue? [a, b, c, d]) (read rest)

theorem escapes_basic : Escapes false basic where
  plain hquote hescape _ hplain rest := by
    have hplain := hplain.resolve_right fun h => Bool.false_ne_true h.1
    simp [basic, hescape, hplain]
  short {e c} h rest := by
    have hu : e ≠ 'u' := by rintro rfl; cases h
    have hU : e ≠ 'U' := by rintro rfl; cases h
    simp [basic, hu, hU, h]
  hex a b c d rest := by rw [basic]

theorem escapes_basicLines : Escapes true (basicLines false) where
  plain hquote hescape hreturn hplain rest := by
    rw [basicLines]
    all_goals simp_all
  short {e c} h rest := by
    have hu : e ≠ 'u' := by rintro rfl; cases h
    have hU : e ≠ 'U' := by rintro rfl; cases h
    have hends : endsLine (e :: rest) = false := by
      unfold escape? at h
      split at h <;> cases h <;> simp [endsLine]
    rw [basicLines]
    all_goals simp_all
  hex a b c d rest := by rw [basicLines]

/-- A character is read as it was written. -/
theorem Escapes.read_escaped {lines : Bool} {read : List Char → Reading} (h : Escapes lines read)
    {c : Char} (hquote : c ≠ '"') (rest : List Char) :
    read (escaped lines c ++ rest) = consed (some c) (read rest) := by
  unfold escaped
  split
  · next hc => subst hc; exact h.short rfl rest
  split
  · next hc => subst hc; exact h.short rfl rest
  split
  · next hc => subst hc; exact h.short rfl rest
  split
  · next hc =>
    subst hc
    cases lines with
    | true => exact h.plain (by decide) (by decide) (by decide) (.inr ⟨rfl, rfl⟩) rest
    | false => exact h.short rfl rest
  split
  · next hc => subst hc; exact h.short rfl rest
  split
  · next hc => subst hc; exact h.short rfl rest
  split
  · next hneeds =>
    exact (h.hex _ _ _ _ rest).trans (congrArg (consed · (read rest)) (scalarValue?_fourHex hneeds))
  · next hescape _ _ hfeed _ hreturn hneeds =>
    have hplain := isPlain_of_not_needsEscape (Bool.eq_false_iff.2 hneeds)
    exact h.plain hquote hescape hreturn (.inl (hplain.resolve_right hfeed)) rest

/-- What is written for a character other than a quote does not begin with one. -/
theorem exists_escaped (lines : Bool) {c : Char} (h : c ≠ '"') :
    ∃ d more, d ≠ '"' ∧ escaped lines c = d :: more := by
  unfold escaped
  repeat' split
  all_goals first | exact ⟨_, _, by decide, rfl⟩ | exact ⟨_, _, h, rfl⟩

/-! ## On one line -/

/-- **Between double quotes** any text can be written. -/
theorem basic_escapeAll (rest : List Char) : ∀ (cs : List Char) (run : Nat),
    basic (escapeAll false run cs ++ '"' :: rest) = some (cs, rest)
  | [], _ => rfl
  | c :: cs, run => by
    have ih := basic_escapeAll rest cs 0
    by_cases hquote : c = '"'
    · subst hquote
      have hread := escapes_basic.short (e := '"') rfl (escapeAll false 0 cs ++ '"' :: rest)
      rw [ih] at hread
      rw [escapeAll, if_pos rfl, if_neg (by simp)]
      exact hread
    · rw [escapeAll, if_neg hquote, List.append_assoc, escapes_basic.read_escaped hquote, ih]
      rfl

/-- **Between single quotes** everything stands for itself. -/
theorem literal_append (rest : List Char) : ∀ {cs : List Char}, '\'' ∉ cs →
    (∀ c ∈ cs, isPlain c = true) → literal (cs ++ '\'' :: rest) = some (cs, rest)
  | [], _, _ => rfl
  | c :: cs, hquote, hplain => by
    obtain ⟨hc, hcs⟩ := List.forall_mem_cons.1 hplain
    have hne : c ≠ '\'' := fun h => hquote (h ▸ List.mem_cons_self)
    have ih := literal_append rest (mt (List.mem_cons_of_mem c) hquote) hcs
    rw [List.cons_append, literal, if_pos hc, ih]
    · rfl
    · exact hne

/-! ## Over several lines -/

/-- How quotes are read in a text that three of them close: one or two in front of something else
belong to the text, and so do those in front of the last three. -/
structure Closes (quote : Char) (read : List Char → Reading) : Prop where
  one {x : Char} (hx : x ≠ quote) (rest : List Char) :
    read (quote :: x :: rest) = consed (some quote) (read (x :: rest))
  two {x : Char} (hx : x ≠ quote) (rest : List Char) :
    read (quote :: quote :: x :: rest) = consed (some quote) (read (quote :: x :: rest))
  closing {run : Nat} (hrun : run ≤ 2) {x : Char} (hx : x ≠ quote) (rest : List Char) :
    read (List.replicate run quote ++ quote :: quote :: quote :: x :: rest)
      = some (List.replicate run quote, x :: rest)

theorem closes_basicLines : Closes '"' (basicLines false) where
  one hx rest := by
    rw [basicLines]
    all_goals simp_all [isPlain]
  two hx rest := by
    rw [basicLines]
    all_goals simp_all [isPlain]
  closing {run} hrun x hx rest := by
    match run, hrun with
    | 0, _ => simp [basicLines, hx]
    | 1, _ => simp [basicLines, hx]
    | 2, _ => simp [basicLines]

theorem closes_literalLines : Closes '\'' literalLines where
  one hx rest := by
    rw [literalLines]
    all_goals simp_all [isPlain]
  two hx rest := by
    rw [literalLines]
    all_goals simp_all [isPlain]
  closing {run} hrun x hx rest := by
    match run, hrun with
    | 0, _ => simp [literalLines, hx]
    | 1, _ => simp [literalLines, hx]
    | 2, _ => simp [literalLines]

/-- Quotes in front of something else are read as they are. -/
theorem Closes.read_run {quote : Char} {read : List Char → Reading} (h : Closes quote read)
    {run : Nat} (hrun : run ≤ 2) {x : Char} (hx : x ≠ quote) {more text rest : List Char}
    (hread : read (x :: more) = some (text, rest)) :
    read (List.replicate run quote ++ x :: more)
      = some (List.replicate run quote ++ text, rest) := by
  match run, hrun with
  | 0, _ => exact hread
  | 1, _ =>
    refine (h.one hx more).trans ?_
    rw [hread]
    rfl
  | 2, _ =>
    refine (h.two hx more).trans ?_
    rw [h.one hx, hread]
    rfl

/-- **Between three double quotes** any text can be written. The text is read together with the
quotes that have just been written. -/
theorem basicLines_escapeAll {x : Char} (hx : x ≠ '"') (rest : List Char) :
    ∀ (cs : List Char) (run : Nat), run ≤ 2 →
      basicLines false (List.replicate run '"'
          ++ (escapeAll true run cs ++ '"' :: '"' :: '"' :: x :: rest))
        = some (List.replicate run '"' ++ cs, x :: rest)
  | [], run, hrun => by
    rw [List.append_nil]
    exact closes_basicLines.closing hrun hx rest
  | c :: cs, run, hrun => by
    by_cases hquote : c = '"'
    · subst hquote
      by_cases hroom : run < 2
      · have ih := basicLines_escapeAll hx rest cs (run + 1) hroom
        rw [List.replicate_succ', List.append_assoc, List.append_assoc] at ih
        rw [escapeAll, if_pos rfl, if_pos (by simpa using hroom)]
        exact ih
      · -- a third quote in a row is escaped, and counting begins anew
        have ih := basicLines_escapeAll hx rest cs 0 (Nat.zero_le 2)
        have hread := escapes_basicLines.short (e := '"') rfl
          (escapeAll true 0 cs ++ '"' :: '"' :: '"' :: x :: rest)
        rw [show basicLines false (escapeAll true 0 cs ++ '"' :: '"' :: '"' :: x :: rest)
          = some (cs, x :: rest) from ih] at hread
        rw [escapeAll, if_pos rfl, if_neg (by simpa using hroom)]
        exact closes_basicLines.read_run hrun (by decide) hread
    · have ih := basicLines_escapeAll hx rest cs 0 (Nat.zero_le 2)
      have hread := escapes_basicLines.read_escaped hquote
        (escapeAll true 0 cs ++ '"' :: '"' :: '"' :: x :: rest)
      rw [show basicLines false (escapeAll true 0 cs ++ '"' :: '"' :: '"' :: x :: rest)
        = some (cs, x :: rest) from ih] at hread
      obtain ⟨d, more, hd, hescaped⟩ := exists_escaped true hquote
      rw [escapeAll, if_neg hquote, List.append_assoc]
      rw [hescaped] at hread ⊢
      exact closes_basicLines.read_run hrun hd hread

theorem le_longestRun (c : Char) : ∀ (run : Nat) (cs : List Char), run ≤ longestRun c run cs
  | _, [] => Nat.le_refl _
  | run, d :: cs => by
    rw [longestRun]
    split
    · exact Nat.le_of_succ_le (le_longestRun c (run + 1) cs)
    · exact Nat.le_max_left ..

/-- Where no run is counted, the character does not occur. -/
theorem not_mem_of_longestRun {c : Char} : ∀ {cs : List Char}, longestRun c 0 cs = 0 → c ∉ cs
  | [], _ => List.not_mem_nil
  | d :: cs, h => by
    rw [longestRun] at h
    split at h
    · have hrun := le_longestRun c (0 + 1) cs
      omega
    · next hne =>
      have hrest := not_mem_of_longestRun (Nat.max_eq_zero_iff.1 h).2
      exact fun hmem => (List.mem_cons.1 hmem).elim (fun heq => hne heq.symm) hrest

/-- **Between three single quotes** everything stands for itself, if at most two of them come in a
row. -/
theorem literalLines_append {x : Char} (hx : x ≠ '\'') (rest : List Char) :
    ∀ {cs : List Char} {run : Nat}, longestRun '\'' run cs ≤ 2 →
      (∀ c ∈ cs, needsEscape c = false) →
      literalLines (List.replicate run '\'' ++ (cs ++ '\'' :: '\'' :: '\'' :: x :: rest))
        = some (List.replicate run '\'' ++ cs, x :: rest)
  | [], run, hrun, _ => by
    rw [List.append_nil]
    exact closes_literalLines.closing hrun hx rest
  | c :: cs, run, hrun, hneeds => by
    obtain ⟨hc, hcs⟩ := List.forall_mem_cons.1 hneeds
    rw [longestRun] at hrun
    split at hrun
    · next hquote =>
      subst hquote
      have ih := literalLines_append hx rest hrun hcs
      rw [List.replicate_succ', List.append_assoc, List.append_assoc] at ih
      exact ih
    · next hquote =>
      have ih := literalLines_append hx rest (Nat.le_trans (Nat.le_max_right ..) hrun) hcs
      have hplain := isPlain_of_not_needsEscape hc
      have hreturn : c ≠ '\r' := by
        rintro rfl
        cases hc
      have hread : literalLines (c :: (cs ++ '\'' :: '\'' :: '\'' :: x :: rest))
          = some (c :: cs, x :: rest) := by
        rw [literalLines, if_pos (by simpa using hplain)]
        · rw [show literalLines (cs ++ '\'' :: '\'' :: '\'' :: x :: rest) = some (cs, x :: rest)
            from ih]
          rfl
        all_goals simp_all
      exact closes_literalLines.read_run (Nat.le_trans (Nat.le_max_left ..) hrun) hquote hread

/-! ## Choosing quotes -/

/-- Single quotes are chosen only for texts that can stand between them. -/
theorem of_quotesFor_literal {cs : List Char} (h : quotesFor cs = .literal) :
    '\'' ∉ cs ∧ ∀ c ∈ cs, isPlain c = true := by
  unfold quotesFor at h
  dsimp only at h
  split at h
  · cases h
  split at h
  · next hchosen =>
    simp only [Bool.and_eq_true, Bool.not_eq_true', List.any_eq_false, beq_iff_eq,
      List.contains_eq_mem, decide_eq_false_iff_not] at hchosen
    obtain ⟨⟨hneeds, hsingles⟩, hfeed⟩ := hchosen
    refine ⟨not_mem_of_longestRun hsingles, fun c hc => ?_⟩
    refine (isPlain_of_not_needsEscape (Bool.eq_false_iff.2 (hneeds c hc))).resolve_right ?_
    rintro rfl
    exact hfeed hc
  repeat' split at h
  all_goals cases h

/-- Three single quotes are chosen only for texts that can stand between them. -/
theorem of_quotesFor_literalLines {cs : List Char} (h : quotesFor cs = .literalLines) :
    longestRun '\'' 0 cs ≤ 2 ∧ ∀ c ∈ cs, needsEscape c = false := by
  unfold quotesFor at h
  dsimp only at h
  split at h
  · cases h
  split at h
  · cases h
  split at h
  · cases h
  split at h
  · next hchosen =>
    simp only [Bool.and_eq_true, Bool.not_eq_true', List.any_eq_false, decide_eq_true_eq] at hchosen
    exact ⟨hchosen.2, fun c hc => Bool.eq_false_iff.2 (hchosen.1 c hc)⟩
  split at h <;> cases h

theorem exists_escapeAll (c : Char) (cs : List Char) :
    ∃ d more, d ≠ '"' ∧ escapeAll false 0 (c :: cs) = d :: more := by
  by_cases hquote : c = '"'
  · exact ⟨'\\', _, by decide, by rw [escapeAll, if_pos hquote, if_neg (by simp)]⟩
  · obtain ⟨d, more, hd, hescaped⟩ := exists_escaped false hquote
    exact ⟨d, _, hd, by rw [escapeAll, if_neg hquote, hescaped, List.cons_append]⟩

/-- **A string is read as it was written.** -/
theorem readString_writeString (text : String) (rest : List Char) :
    readString ((writeString text).toList ++ '\n' :: rest) = some (text.toList, '\n' :: rest) := by
  unfold writeString
  dsimp only
  rw [String.toList_ofList]
  cases hquotes : quotesFor text.toList with
  | basic =>
    have hread := basic_escapeAll ('\n' :: rest) text.toList 0
    dsimp only
    rw [List.append_assoc, List.cons_append, List.singleton_append]
    cases hcs : text.toList with
    | nil => rfl
    | cons c cs =>
      -- what follows the first quote is none, so that no text over several lines begins
      obtain ⟨d, more, hd, hescape⟩ := exists_escapeAll c cs
      rw [hcs, hescape] at hread
      rw [hescape, List.cons_append, readString]
      · exact hread
      all_goals simp_all
  | literal =>
    obtain ⟨hquote, hplain⟩ := of_quotesFor_literal hquotes
    have hread := literal_append ('\n' :: rest) hquote hplain
    dsimp only
    rw [List.append_assoc, List.append_assoc, List.singleton_append, List.singleton_append]
    cases hcs : text.toList with
    | nil => rfl
    | cons c cs =>
      have hne : c ≠ '\'' := by
        rintro rfl
        exact hquote (by simp [hcs])
      rw [hcs] at hread
      rw [List.cons_append, readString]
      · exact hread
      all_goals simp_all
  | basicLines =>
    have hread := basicLines_escapeAll (x := '\n') (by decide) rest text.toList 0
      (Nat.zero_le 2)
    dsimp only
    rw [List.append_assoc]
    exact hread
  | literalLines =>
    obtain ⟨hrun, hneeds⟩ := of_quotesFor_literalLines hquotes
    have hread := literalLines_append (x := '\n') (by decide) rest hrun hneeds
    dsimp only
    rw [List.append_assoc]
    exact hread

end EventScripts.Toml
