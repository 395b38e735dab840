import EventScripts.Proofs.Toml.Scalar
import EventScripts.Toml.Document
import Mathlib.Data.List.Nodup
/-!
# Documents that are written

A document of tables that hold strings, integers and truth values is read as it was
written (`read_of_write?`). It is read line by line: a header opens a table at the
end of what has been read, an entry is added at the end of that table, and a blank
line changes nothing.
-/

namespace EventScripts.Toml

/-! ## Values -/

/-- What begins like no string, array or table is read as a scalar. -/
theorem readValue_of_not_mem {c : Char} (h : c ∉ ['"', '\'', '[', '{']) (depth fuel : Nat)
    (cs : List Char) : readValue depth (fuel + 1) (c :: cs) = readScalar (c :: cs) := by
  rw [readValue]
  all_goals
    intro more heq
    obtain ⟨rfl, -⟩ := List.cons.inj heq
    exact h (by decide)

theorem readValue_of_token {token : List Char} {value : Value} (h : scalar? token = some value)
    (hne : token ≠ []) (htoken : ∀ c ∈ token, isScalarChar c = true) (depth fuel : Nat)
    (rest : List Char) :
    readValue depth (fuel + 1) (token ++ '\n' :: rest) = some (value, '\n' :: rest) := by
  have hread := readScalar_of_token h htoken rest
  obtain ⟨c, more, rfl⟩ := List.exists_cons_of_ne_nil hne
  have hscalar : c ∉ ['"', '\'', '[', '{'] := by
    intro hmem
    have hc := htoken c List.mem_cons_self
    simp only [List.mem_cons, List.not_mem_nil, or_false] at hmem
    obtain rfl | rfl | rfl | rfl := hmem <;> cases hc
  rw [List.cons_append] at hread ⊢
  rw [readValue_of_not_mem hscalar, hread]

theorem exists_writeString (text : String) :
    ∃ quote more, (quote = '"' ∨ quote = '\'') ∧ (writeString text).toList = quote :: more := by
  unfold writeString
  dsimp only
  rw [String.toList_ofList]
  cases quotesFor text.toList
  · exact ⟨_, _, .inl rfl, rfl⟩
  · exact ⟨_, _, .inr rfl, rfl⟩
  · exact ⟨_, _, .inl rfl, rfl⟩
  · exact ⟨_, _, .inr rfl, rfl⟩

theorem readValue_writeString (text : String) (depth fuel : Nat) (rest : List Char) :
    readValue depth (fuel + 1) ((writeString text).toList ++ '\n' :: rest)
      = some (.string text, '\n' :: rest) := by
  have hread := readString_writeString text rest
  obtain ⟨quote, more, hquote, heq⟩ := exists_writeString text
  rw [heq] at hread ⊢
  obtain rfl | rfl := hquote
  · rw [List.cons_append, readValue, ← List.cons_append, hread]
    simp
  · rw [List.cons_append, readValue, ← List.cons_append, hread]
    simp

/-- **A value is read as it was written**, up to the end of its line. -/
theorem readValue_of_writeScalar? {value : Value} {text : String}
    (h : writeScalar? value = some text) (depth fuel : Nat) (rest : List Char) :
    readValue depth (fuel + 1) (text.toList ++ '\n' :: rest) = some (value, '\n' :: rest) := by
  cases value with
  | string s =>
    obtain rfl : writeString s = text := Option.some.inj h
    exact readValue_writeString s depth fuel rest
  | integer n =>
    rw [writeScalar?] at h
    split at h
    · next hn =>
      obtain rfl := Option.some.inj h
      have hdigits := digits_toDigits n.natAbs
      have htoken := scalar?_toString hn
      rw [toList_toString] at htoken ⊢
      exact readValue_of_token htoken (hdigits.signed_ne_nil _) (hdigits.isScalarChar_of_mem _)
        depth fuel rest
    · cases h
  | boolean b =>
    cases b with
    | true =>
      obtain rfl : "true" = text := Option.some.inj h
      exact readValue_of_token rfl (by decide) (List.all_eq_true.1 rfl) depth fuel rest
    | false =>
      obtain rfl : "false" = text := Option.some.inj h
      exact readValue_of_token rfl (by decide) (List.all_eq_true.1 rfl) depth fuel rest
  | float => cases h
  | date => cases h
  | array => cases h
  | table => cases h

/-- No value begins with a blank. -/
theorem skipSpaces_of_readValue {depth fuel : Nat} {cs : List Char} {result : Value × List Char}
    (h : readValue depth (fuel + 1) cs = some result) : skipSpaces cs = cs := by
  cases cs with
  | nil => rfl
  | cons c cs =>
    refine List.dropWhile_cons_of_neg fun hspace => ?_
    have hnone : readValue depth (fuel + 1) (c :: cs) = none := by
      simp only [isSpace, Bool.or_eq_true, beq_iff_eq] at hspace
      obtain rfl | rfl := hspace <;> rw [readValue_of_not_mem (by decide)] <;> rfl
    rw [hnone] at h
    cases h

/-! ## Keys -/

/-- A key that can be written without quotes. -/
structure IsBare (key : String) : Prop where
  nonempty : key ≠ ""
  bare : key.toList.all isBareKeyChar = true

theorem isBare_iff {key : String} :
    IsBare key ↔ key ≠ "" ∧ key.toList.all isBareKeyChar = true :=
  ⟨fun ⟨hne, hbare⟩ => ⟨hne, hbare⟩, fun ⟨hne, hbare⟩ => ⟨hne, hbare⟩⟩

instance (key : String) : Decidable (IsBare key) := decidable_of_iff _ isBare_iff.symm

/-- A bare key begins with a character that nothing else begins with. -/
theorem IsBare.exists_cons {key : String} (h : IsBare key) :
    ∃ c more, isBareKeyChar c = true ∧ key.toList = c :: more := by
  cases hkey : key.toList with
  | nil => exact absurd (String.toList_eq_nil_iff.1 hkey) h.nonempty
  | cons c more => exact ⟨c, more, List.all_eq_true.1 h.bare c (by simp [hkey]), rfl⟩

theorem skipSpaces_cons {c : Char} (h : isSpace c = false) (cs : List Char) :
    skipSpaces (c :: cs) = c :: cs :=
  List.dropWhile_cons_of_neg (by simp [h])

theorem not_isSpace_of_bare {c : Char} (h : isBareKeyChar c = true) : isSpace c = false := by
  rw [Bool.eq_false_iff]
  intro hspace
  simp only [isSpace, Bool.or_eq_true, beq_iff_eq] at hspace
  obtain rfl | rfl := hspace <;> cases h

theorem readKeyPart_bare {key : String} (h : IsBare key) {c : Char} (hc : isBareKeyChar c = false)
    (rest : List Char) : readKeyPart (key.toList ++ c :: rest) = some (key.toList, c :: rest) := by
  have hbare := List.all_eq_true.1 h.bare
  have htake : (key.toList ++ c :: rest).takeWhile isBareKeyChar = key.toList := by
    rw [List.takeWhile_append_of_pos hbare, List.takeWhile_cons_of_neg (by simp [hc]),
      List.append_nil]
  have hdrop : (key.toList ++ c :: rest).dropWhile isBareKeyChar = c :: rest := by
    rw [List.dropWhile_append_of_pos hbare, List.dropWhile_cons_of_neg (by simp [hc])]
  obtain ⟨first, more, hfirst, hkey⟩ := h.exists_cons
  unfold readKeyPart
  split
  · next heq =>
    rw [hkey] at heq
    obtain ⟨rfl, -⟩ := List.cons.inj heq
    cases hfirst
  · next heq =>
    rw [hkey] at heq
    obtain ⟨rfl, -⟩ := List.cons.inj heq
    cases hfirst
  · dsimp only
    rw [htake, hdrop, hkey]
    rfl

/-- **A bare key is read**, up to what follows it and the blanks behind it. -/
theorem readKey_bare {key : String} (h : IsBare key) {c : Char} (hc : isBareKeyChar c = false)
    {rest : List Char} (hdot : (skipSpaces (c :: rest)).head? ≠ some '.') :
    readKey (key.toList ++ c :: rest) = some ([], key, skipSpaces (c :: rest)) := by
  obtain ⟨first, more, hfirst, hkey⟩ := h.exists_cons
  have hskip : skipSpaces (key.toList ++ c :: rest) = key.toList ++ c :: rest := by
    rw [hkey, List.cons_append, skipSpaces_cons (not_isSpace_of_bare hfirst)]
  have hparts : readKeyParts maxDepth (key.toList ++ c :: rest)
      = some ([key], skipSpaces (c :: rest)) := by
    rw [maxDepth, readKeyParts, hskip, readKeyPart_bare h hc]
    dsimp only
    split
    · next heq => exact absurd (by rw [heq]; rfl) hdot
    · rw [String.ofList_toList]
  rw [readKey, hparts]
  rfl

/-! ## Lines -/

/-- An entry of a table, and a table, as they are while a document is read. -/
def itemsOf (entries : List (String × Value)) : Entries := entries.map fun e => (e.1, .value e.2)

def rootOf (tables : List (String × List (String × Value))) : Entries :=
  tables.map fun t => (t.1, .table false false (itemsOf t.2))

theorem lookup_itemsOf {entries : List (String × Value)} {key : String}
    (h : key ∉ entries.map (·.1)) : (itemsOf entries).lookup key = none := by
  rw [List.lookup_eq_none_iff]
  intro e he
  obtain ⟨entry, hentry, rfl⟩ := List.mem_map.1 he
  rw [bne_iff_ne]
  rintro rfl
  exact h (List.mem_map_of_mem hentry)

theorem lookup_rootOf {tables : List (String × List (String × Value))} {name : String}
    (h : name ∉ tables.map (·.1)) : (rootOf tables).lookup name = none := by
  rw [List.lookup_eq_none_iff]
  intro t ht
  obtain ⟨table, htable, rfl⟩ := List.mem_map.1 ht
  rw [bne_iff_ne]
  rintro rfl
  exact h (List.mem_map_of_mem htable)

theorem itemsOf_concat (entries : List (String × Value)) (key : String) (value : Value) :
    itemsOf (entries ++ [(key, value)]) = itemsOf entries ++ [(key, .value value)] := by
  simp [itemsOf]

theorem rootOf_concat (tables : List (String × List (String × Value))) (name : String)
    (entries : List (String × Value)) : rootOf (tables ++ [(name, entries)])
      = rootOf tables ++ [(name, .table false false (itemsOf entries))] := by
  simp [rootOf]

variable {done : List (String × List (String × Value))} {entries : List (String × Value)}
  {name key : String}

/-- A header opens a table behind the others. -/
theorem openHeader_rootOf (header : List String) (h : name ∉ done.map (·.1)) :
    openHeader ⟨rootOf done, header⟩ [] name false
      = some ⟨rootOf (done ++ [(name, [])]), [name]⟩ := by
  have hlookup := lookup_rootOf h
  simp [openHeader, Entries.openTable, Entries.atHeader, hlookup, Entries.set, rootOf_concat,
    itemsOf]

/-- A table that has been entered last is replaced where it stands. -/
theorem set_last (h : name ∉ done.map (·.1)) (old new : Item) :
    Entries.set (rootOf done ++ [(name, old)]) name new = rootOf done ++ [(name, new)] := by
  have hlookup : ((rootOf done ++ [(name, old)]).lookup name).isSome = true := by
    simp [List.lookup_append, lookup_rootOf h]
  have hkept : (rootOf done).map (fun e => if e.1 = name then (name, new) else e)
      = rootOf done := by
    refine (List.map_congr_left fun e he => if_neg ?_).trans (List.map_id' _)
    rintro rfl
    obtain ⟨t, ht, rfl⟩ := List.mem_map.1 he
    exact h (List.mem_map_of_mem ht)
  rw [Entries.set, if_pos hlookup, List.map_append, hkept, List.map_singleton, if_pos rfl]

/-- An entry comes last in the table that was opened last. -/
theorem atHeader_rootOf (hname : name ∉ done.map (·.1)) (hkey : key ∉ entries.map (·.1))
    (value : Value) :
    Entries.atHeader (Entries.setValue [] key value) [name] (rootOf (done ++ [(name, entries)]))
      = some (rootOf (done ++ [(name, entries ++ [(key, value)])])) := by
  have hlookup : (rootOf (done ++ [(name, entries)])).lookup name
      = some (.table false false (itemsOf entries)) := by
    simp [rootOf_concat, List.lookup_append, lookup_rootOf hname]
  have hset : Entries.setValue [] key value (itemsOf entries)
      = some (itemsOf (entries ++ [(key, value)])) := by
    simp [Entries.setValue, Entries.setNew, lookup_itemsOf hkey, Entries.set, itemsOf_concat]
  rw [Entries.atHeader, hlookup]
  simp only [Entries.atHeader, hset, Option.map_some]
  rw [rootOf_concat, set_last hname, ← rootOf_concat]

/-- Reading goes on with the rest of a text. Fewer calls are left than before, but still enough
for what is left of the text. -/
def Reads (draft after : Draft) (cs rest : List Char) : Prop :=
  ∀ fuel, cs.length < fuel →
    ∃ left, rest.length < left ∧ readLines fuel draft cs = readLines left after rest

namespace Reads

variable {draft after last : Draft} {cs mid rest : List Char}

theorem refl (draft : Draft) (cs : List Char) : Reads draft draft cs cs :=
  fun fuel hfuel => ⟨fuel, hfuel, rfl⟩

theorem trans (h : Reads draft after cs mid) (h' : Reads after last mid rest) :
    Reads draft last cs rest := by
  intro fuel hfuel
  obtain ⟨left, hleft, hread⟩ := h fuel hfuel
  obtain ⟨less, hless, hread'⟩ := h' left hleft
  exact ⟨less, hless, hread.trans hread'⟩

/-- A text that has been read to its end makes the document. -/
theorem readLines_eq (h : Reads draft after cs []) {fuel : Nat} (hfuel : cs.length < fuel) :
    readLines fuel draft cs = some after.root := by
  obtain ⟨left, hleft, hread⟩ := h fuel hfuel
  obtain ⟨left, rfl⟩ := Nat.exists_eq_succ_of_ne_zero (Nat.ne_of_gt hleft)
  rw [hread]
  rfl

theorem blank (draft : Draft) (rest : List Char) : Reads draft draft ('\n' :: rest) rest := by
  intro fuel hfuel
  refine ⟨fuel, Nat.lt_of_succ_lt hfuel, ?_⟩
  cases fuel with
  | zero => rfl
  | succ fuel => rw [readLines, readLines, skipLines]

theorem endLine?_feed (rest : List Char) : endLine? ('\n' :: rest) = some rest := rfl

/-- A header opens a table. -/
theorem openTable (hbare : IsBare name) (hnew : name ∉ done.map (·.1)) (header : List String)
    (rest : List Char) :
    Reads ⟨rootOf done, header⟩ ⟨rootOf (done ++ [(name, [])]), [name]⟩
      ('[' :: (name.toList ++ ']' :: '\n' :: rest)) rest := by
  obtain ⟨first, more, hfirst, hname⟩ := hbare.exists_cons
  have hkey : readKey (name.toList ++ ']' :: '\n' :: rest) = some ([], name, ']' :: '\n' :: rest) :=
    readKey_bare hbare (by decide) nofun
  have hline : readHeader ⟨rootOf done, header⟩ (name.toList ++ ']' :: '\n' :: rest)
      = some (⟨rootOf (done ++ [(name, [])]), [name]⟩, '\n' :: rest) := by
    unfold readHeader
    split
    · next heq =>
      rw [hname] at heq
      obtain ⟨rfl, -⟩ := List.cons.inj heq
      cases hfirst
    · simp only [hkey, openHeader_rootOf header hnew, Option.map_some]
  intro fuel hfuel
  obtain ⟨fuel, rfl⟩ := Nat.exists_eq_succ_of_ne_zero (Nat.ne_of_gt (Nat.zero_lt_of_lt hfuel))
  refine ⟨fuel, ?_, ?_⟩
  · simp only [List.length_cons, List.length_append] at hfuel
    omega
  · have hskip : skipLines false ('[' :: (name.toList ++ ']' :: '\n' :: rest))
        = '[' :: (name.toList ++ ']' :: '\n' :: rest) := rfl
    rw [readLines, hskip]
    simp only [hline, endLine?_feed]

theorem skipLines_bare {c : Char} (h : isBareKeyChar c = true) (cs : List Char) :
    skipLines false (c :: cs) = c :: cs := by
  rw [skipLines]
  · have hspace := not_isSpace_of_bare h
    have hcomment : (c == '#') = false := by
      rw [beq_eq_false_iff_ne]
      rintro rfl
      cases h
    simp [hspace, hcomment]
  · rintro rfl
    cases h
  · rintro more rfl
    cases h

theorem readLines_entry {c : Char} (h : isBareKeyChar c = true)
    (hline : readEntry draft (c :: cs) = some (after, '\n' :: rest)) (fuel : Nat) :
    readLines (fuel + 1) draft (c :: cs) = readLines fuel after rest := by
  have hheader : c ≠ '[' := by
    rintro rfl
    cases h
  rw [readLines, skipLines_bare h]
  simp only [hline]
  split
  · next heq =>
    split at heq
    · next hcons => exact absurd (List.cons.inj hcons).1 hheader
    · cases heq
  · next heq =>
    split at heq
    · next hcons => exact absurd (List.cons.inj hcons).1 hheader
    · obtain ⟨rfl, rfl⟩ := Prod.mk.inj (Option.some.inj heq)
      rw [endLine?_feed]

/-- An entry is added to the table that was opened last. -/
theorem addEntry (hbare : IsBare key) (hname : name ∉ done.map (·.1))
    (hkey : key ∉ entries.map (·.1)) {value : Value} {text : String}
    (hwritten : writeScalar? value = some text) (rest : List Char) :
    Reads ⟨rootOf (done ++ [(name, entries)]), [name]⟩
      ⟨rootOf (done ++ [(name, entries ++ [(key, value)])]), [name]⟩
      (key.toList ++ ' ' :: '=' :: ' ' :: (text.toList ++ '\n' :: rest)) rest := by
  obtain ⟨first, more, hfirst, hcons⟩ := hbare.exists_cons
  have hread : readKey (key.toList ++ ' ' :: '=' :: ' ' :: (text.toList ++ '\n' :: rest))
      = some ([], key, '=' :: ' ' :: (text.toList ++ '\n' :: rest)) :=
    readKey_bare hbare (by decide) nofun
  have hvalue : readValue 0 (2 * (' ' :: (text.toList ++ '\n' :: rest)).length + 2)
      (skipSpaces (' ' :: (text.toList ++ '\n' :: rest))) = some (value, '\n' :: rest) := by
    have hread := readValue_of_writeScalar? hwritten 0
      (2 * (' ' :: (text.toList ++ '\n' :: rest)).length + 1) rest
    show readValue 0 _ (skipSpaces (text.toList ++ '\n' :: rest)) = _
    rw [skipSpaces_of_readValue hread, hread]
  have hline : readEntry ⟨rootOf (done ++ [(name, entries)]), [name]⟩
      (key.toList ++ ' ' :: '=' :: ' ' :: (text.toList ++ '\n' :: rest))
      = some (⟨rootOf (done ++ [(name, entries ++ [(key, value)])]), [name]⟩, '\n' :: rest) := by
    simp only [readEntry, hread, hvalue, atHeader_rootOf hname hkey, Option.map_some]
  intro fuel hfuel
  obtain ⟨fuel, rfl⟩ := Nat.exists_eq_succ_of_ne_zero (Nat.ne_of_gt (Nat.zero_lt_of_lt hfuel))
  refine ⟨fuel, ?_, ?_⟩
  · simp only [List.length_cons, List.length_append] at hfuel
    omega
  · rw [hcons, List.cons_append] at hline ⊢
    exact readLines_entry hfirst hline fuel

/-- The entries of a table are read one after another. -/
theorem addEntries (hname : name ∉ done.map (·.1)) (rest : List Char) :
    ∀ {more entries : List (String × Value)} {text : String}, writeEntries? more = some text →
      ((entries ++ more).map (·.1)).Nodup → (∀ e ∈ more, IsBare e.1) →
      Reads ⟨rootOf (done ++ [(name, entries)]), [name]⟩
        ⟨rootOf (done ++ [(name, entries ++ more)]), [name]⟩ (text.toList ++ rest) rest
  | [], entries, text, hwritten, _, _ => by
    obtain rfl : "" = text := Option.some.inj hwritten
    rw [List.append_nil]
    exact .refl _ _
  | (key, value) :: more, entries, text, hwritten, hdistinct, hbare => by
    obtain ⟨hkey, hmore⟩ := List.forall_mem_cons.1 hbare
    obtain ⟨written, hvalue, hrest⟩ := Option.bind_eq_some_iff.1 hwritten
    obtain ⟨lines, hlines, htext⟩ := Option.bind_eq_some_iff.1 hrest
    have hline : text.toList ++ rest
        = key.toList ++ ' ' :: '=' :: ' ' ::
          (written.toList ++ '\n' :: (lines.toList ++ rest)) := by
      rw [← Option.some.inj htext]
      show (key ++ " = " ++ written ++ "\n" ++ lines).toList ++ rest = _
      simp
    have hnew : key ∉ entries.map (·.1) := by
      rw [List.map_append, List.nodup_append] at hdistinct
      intro hmem
      exact hdistinct.2.2 key hmem key (by simp) rfl
    rw [List.append_cons] at hdistinct
    rw [hline, List.append_cons entries]
    exact (addEntry hkey hname hnew hvalue _).trans (addEntries hname rest hlines hdistinct hmore)

/-- A table is read behind the others. -/
theorem addTable {written : List (String × Value)} {text : String}
    (htext : writeTable? (name, .table written) = some text) (hname : IsBare name)
    (hnew : name ∉ done.map (·.1)) (hdistinct : (written.map (·.1)).Nodup)
    (hbare : ∀ e ∈ written, IsBare e.1) (header : List String) (rest : List Char) :
    Reads ⟨rootOf done, header⟩ ⟨rootOf (done ++ [(name, written)]), [name]⟩
      (text.toList ++ rest) rest := by
  obtain ⟨lines, hlines, rfl⟩ := Option.map_eq_some_iff.1 htext
  have hline : (s!"[{name}]\n{lines}").toList ++ rest
      = '[' :: (name.toList ++ ']' :: '\n' :: (lines.toList ++ rest)) := by
    show ("[" ++ name ++ "]\n" ++ lines).toList ++ rest = _
    simp
  rw [hline]
  exact (openTable hname hnew header _).trans (addEntries hnew rest hlines hdistinct hbare)

end Reads

/-! ## Documents -/

/-- The document of some tables. -/
def documentOf (tables : List (String × List (String × Value))) : List (String × Value) :=
  tables.map fun t => (t.1, .table t.2)

/-- Tables whose names and keys can be written without quotes, and are not written twice. -/
structure Writable (tables : List (String × List (String × Value))) : Prop where
  names : (tables.map (·.1)).Nodup
  keys : ∀ t ∈ tables, (t.2.map (·.1)).Nodup
  bareNames : ∀ t ∈ tables, IsBare t.1
  bareKeys : ∀ t ∈ tables, ∀ e ∈ t.2, IsBare e.1

theorem valuesOf_itemsOf : ∀ entries : List (String × Value), valuesOf (itemsOf entries) = entries
  | [] => rfl
  | (key, value) :: entries => by
    have ih := valuesOf_itemsOf entries
    rw [itemsOf] at ih
    rw [itemsOf, List.map_cons, valuesOf, ih, Item.toValue]

theorem valuesOf_rootOf : ∀ tables : List (String × List (String × Value)),
    valuesOf (rootOf tables) = documentOf tables
  | [] => rfl
  | (name, entries) :: tables => by
    have ih := valuesOf_rootOf tables
    rw [rootOf] at ih
    rw [rootOf, List.map_cons, valuesOf, ih, Item.toValue, valuesOf_itemsOf]
    rfl

/-- The tables of a document are read one after another. -/
theorem exists_reads : ∀ {tables done : List (String × List (String × Value))}
    {texts : List String}, (documentOf tables).mapM writeTable? = some texts →
    Writable (done ++ tables) → ∀ header : List String,
    ∃ after, after.root = rootOf (done ++ tables) ∧
      Reads ⟨rootOf done, header⟩ after (['\n'].intercalate (texts.map String.toList)) []
  | [], done, texts, htexts, _, header => by
    obtain rfl : [] = texts := Option.some.inj htexts
    rw [List.append_nil]
    exact ⟨_, rfl, .refl _ _⟩
  | (name, entries) :: tables, done, texts, htexts, hw, header => by
    rw [documentOf, List.map_cons, List.mapM_cons] at htexts
    obtain ⟨text, htext, hrest⟩ := Option.bind_eq_some_iff.1 htexts
    obtain ⟨others, hothers, heq⟩ := Option.bind_eq_some_iff.1 hrest
    obtain rfl := Option.some.inj heq
    have hmem : (name, entries) ∈ done ++ (name, entries) :: tables := by simp
    have hnew : name ∉ done.map (·.1) := by
      have hnames := hw.names
      rw [List.map_append, List.nodup_append] at hnames
      intro hold
      exact hnames.2.2 name hold name (by simp) rfl
    have htable := Reads.addTable htext (hw.bareNames _ hmem) hnew (hw.keys _ hmem)
      (hw.bareKeys _ hmem) header
    rw [List.append_cons] at hw ⊢
    obtain ⟨after, hafter, hreads⟩ := exists_reads hothers hw [name]
    refine ⟨after, hafter, ?_⟩
    -- only between two tables there is a blank line
    cases others with
    | nil =>
      have hlast := htable []
      rw [List.append_nil] at hlast
      rw [List.map_singleton, List.intercalate_singleton]
      exact hlast.trans hreads
    | cons next others =>
      rw [List.map_cons, List.map_cons, List.intercalate_cons_cons, List.append_assoc]
      exact (htable _).trans ((Reads.blank _ _).trans hreads)

/-- No line of a document begins with a byte order mark. -/
theorem readLines_mark (fuel : Nat) (draft : Draft) (cs : List Char) :
    readLines fuel draft ('\ufeff' :: cs) = none := by
  cases fuel <;> rfl

/-- **A document is read as it was written.** -/
theorem read_of_write? {tables : List (String × List (String × Value))} (h : Writable tables)
    {text : String} (hwritten : write? (documentOf tables) = some text) :
    read text = some (documentOf tables) := by
  obtain ⟨texts, htexts, rfl⟩ := Option.map_eq_some_iff.1 hwritten
  have hbehind : Writable ([] ++ tables) := h
  obtain ⟨after, hafter, hreads⟩ := exists_reads htexts hbehind []
  have htext : ("\n".intercalate texts).toList = ['\n'].intercalate (texts.map String.toList) := by
    rw [String.toList_intercalate]
    rfl
  rw [← htext] at hreads
  have hread := hreads.readLines_eq (Nat.lt_succ_self _)
  unfold read
  dsimp only
  split
  · next cs hmark =>
    rw [hmark, readLines_mark] at hread
    cases hread
  · rw [show readLines _ {} _ = some after.root from hread, hafter, Option.map_some,
      valuesOf_rootOf]
    rfl

/-! ## What can be written -/

theorem exists_writeEntries? : ∀ {entries : List (String × Value)},
    (∀ e ∈ entries, ∃ text, writeScalar? e.2 = some text) →
    ∃ text, writeEntries? entries = some text
  | [], _ => ⟨_, rfl⟩
  | (key, value) :: entries, h => by
    obtain ⟨hvalue, hentries⟩ := List.forall_mem_cons.1 h
    obtain ⟨written, hwritten⟩ := hvalue
    obtain ⟨lines, hlines⟩ := exists_writeEntries? hentries
    simp [writeEntries?, hwritten, hlines]

/-- Tables of values that can be written make a text. -/
theorem exists_write? {tables : List (String × List (String × Value))}
    (h : ∀ t ∈ tables, ∀ e ∈ t.2, ∃ text, writeScalar? e.2 = some text) :
    ∃ text, write? (documentOf tables) = some text := by
  suffices htexts : ∃ texts, (documentOf tables).mapM writeTable? = some texts by
    obtain ⟨texts, htexts⟩ := htexts
    exact ⟨_, by rw [write?, htexts]; rfl⟩
  induction tables with
  | nil => exact ⟨[], rfl⟩
  | cons t tables ih =>
    obtain ⟨htable, htables⟩ := List.forall_mem_cons.1 h
    obtain ⟨lines, hlines⟩ := exists_writeEntries? htable
    obtain ⟨texts, htexts⟩ := ih htables
    rw [documentOf] at htexts
    rw [documentOf, List.map_cons, List.mapM_cons, htexts, writeTable?, hlines]
    exact ⟨_, rfl⟩

end EventScripts.Toml
