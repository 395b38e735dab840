import EventScripts.Demo.Header
import EventScripts.Proofs.Event.Tier
import EventScripts.Proofs.Text.Cut
/-!
# Headers that are written

A header that has been written is read as what it was written for: the kinds in
their order, and the tier, which may be spelled in any way or left out
(`read_written`). The kinds hold no blank, and that is all that is asked of them.
They may be the very words that stand between them: a kind `or` or `with` is not
taken for those, because a word that matters has a blank in front of it and
behind it, and stands between two kinds or behind the last one.
-/

namespace EventScripts.Demo

/-- A kind that can be written in a header: it is a word. -/
structure IsWord (kind : Kind) : Prop where
  nonempty : kind ≠ ""
  noBlank : ∀ c ∈ kind.toList, Text.isBlank c = false

theorem isWord_of_any {kind : Kind} (hne : kind ≠ "")
    (h : kind.toList.any Text.isBlank = false) : IsWord kind :=
  ⟨hne, fun c hc => Bool.eq_false_iff.2 (List.any_eq_false.1 h c hc)⟩

/-- Kinds with `or` in between. -/
def writtenKinds (kinds : List Kind) : List Char :=
  " or ".toList.intercalate (kinds.map (·.toList))

/-- A header: the kinds, and behind them what there is to say of the tier. -/
def headerWith (kinds : List Kind) (behind : List Char) : String :=
  String.ofList ("on ".toList ++ (writtenKinds kinds ++ behind))

/-- A header with its tier. -/
def writtenHeader (kinds : List Kind) (tier : List Char) : String :=
  headerWith kinds (" with priority ".toList ++ tier)

/-- A header that names no tier. -/
def plainHeader (kinds : List Kind) : String := headerWith kinds []

theorem IsWord.noSpace {kind : Kind} (h : IsWord kind) : ' ' ∉ kind.toList :=
  fun hspace => Bool.noConfusion (h.noBlank _ hspace)

theorem IsWord.trim {kind : Kind} (h : IsWord kind) : Text.trim kind.toList = kind.toList :=
  Text.trim_eq_self_iff.2 ⟨fun c hc => h.noBlank c (List.mem_of_mem_head? hc),
    fun c hc => h.noBlank c (List.mem_of_mem_getLast? hc)⟩

variable {kinds : List Kind}

/-- **The kinds are read** in their order. -/
theorem kindsOf_writtenKinds (hne : kinds ≠ []) (h : ∀ kind ∈ kinds, IsWord kind) :
    Header.kindsOf (writtenKinds kinds) = kinds := by
  have hparts : ∀ part ∈ kinds.map (·.toList), ' ' ∉ part := by
    intro part hpart
    obtain ⟨kind, hkind, rfl⟩ := List.mem_map.1 hpart
    exact (h kind hkind).noSpace
  have hsplit : Text.splitOn " or ".toList (writtenKinds kinds) = kinds.map (·.toList) :=
    Text.splitOn_intercalate (by simpa using hne) hparts
  have htrim : (kinds.map (·.toList)).map Text.trim = kinds.map (·.toList) := by
    rw [List.map_map]
    exact List.map_congr_left fun kind hkind => (h kind hkind).trim
  have hkept : (kinds.map (·.toList)).filter (!·.isEmpty) = kinds.map (·.toList) := by
    refine List.filter_eq_self.2 fun part hpart => ?_
    obtain ⟨kind, hkind, rfl⟩ := List.mem_map.1 hpart
    simpa using (h kind hkind).nonempty
  rw [Header.kindsOf, hsplit, htrim, hkept, List.map_map]
  exact (List.map_congr_left fun kind _ => String.ofList_toList).trans (List.map_id' kinds)

/-- What may stand behind a kind: nothing, or another word than `priority`. -/
def Follows (rest : List Char) : Prop := rest = [] ∨ ∃ c tail, 'p' ≠ c ∧ rest = ' ' :: c :: tail

/-- A word is not taken for the place where the tier is named, unless `priority` follows it. -/
theorem not_priority {word rest : List Char} (hword : ' ' ∉ word) (h : Follows rest) :
    ¬" with priority ".toList <+: ' ' :: (word ++ rest) := by
  rintro ⟨tail, htail⟩
  have hbehind : "with".toList ++ ' ' :: ("priority ".toList ++ tail) = word ++ rest :=
    (List.cons.inj htail).2
  obtain rfl | ⟨c, behind, hc, rfl⟩ := h
  · rw [List.append_nil] at hbehind
    exact hword (hbehind ▸ by simp)
  · obtain ⟨-, hcons⟩ := Text.append_cons_inj (by decide) hword hbehind
    exact hc (List.cons.inj hcons).1

theorem writtenKinds_cons (kind next : Kind) (kinds : List Kind) :
    writtenKinds (kind :: next :: kinds)
      = kind.toList ++ (" or ".toList ++ writtenKinds (next :: kinds)) := by
  rw [writtenKinds, List.map_cons, List.map_cons, List.intercalate_cons_cons, List.append_assoc,
    ← List.map_cons]
  rfl

/-- Behind the first kind there is `or`, or what stands behind the last one. -/
theorem exists_behind (kind : Kind) (kinds : List Kind) {behind : List Char} (h : Follows behind) :
    ∃ rest, Follows rest ∧ writtenKinds (kind :: kinds) ++ behind = kind.toList ++ rest := by
  cases kinds with
  | nil =>
    refine ⟨behind, h, ?_⟩
    rw [writtenKinds, List.map_singleton, List.intercalate_singleton]
  | cons next kinds =>
    refine ⟨" or ".toList ++ (writtenKinds (next :: kinds) ++ behind),
      .inr ⟨'o', "r ".toList ++ (writtenKinds (next :: kinds) ++ behind), by decide, rfl⟩, ?_⟩
    rw [writtenKinds_cons, List.append_assoc, List.append_assoc]

/-- **The tier is named behind the last kind**, and nowhere before. -/
theorem cut?_writtenKinds {behind : List Char} (hbehind : Follows behind) : ∀ {kinds : List Kind},
    kinds ≠ [] → (∀ kind ∈ kinds, IsWord kind) →
    Text.cut? " with priority ".toList (writtenKinds kinds ++ behind)
      = (Text.cut? " with priority ".toList behind).map
          fun (before, rest) => (writtenKinds kinds ++ before, rest)
  | [], hne, _ => absurd rfl hne
  | [kind], _, h => by
    have hkind := h kind List.mem_cons_self
    rw [writtenKinds, List.map_singleton, List.intercalate_singleton]
    exact Text.cut?_append hkind.noSpace behind
  | kind :: next :: kinds, _, h => by
    obtain ⟨hkind, hrest⟩ := List.forall_mem_cons.1 h
    have hnext := hrest next List.mem_cons_self
    have ih := cut?_writtenKinds hbehind (List.cons_ne_nil next kinds) hrest
    obtain ⟨rest, hfollows, heq⟩ := exists_behind next kinds hbehind
    have hpriority : ¬" with priority ".toList <+:
        ' ' :: (writtenKinds (next :: kinds) ++ behind) := by
      rw [heq]
      exact not_priority hnext.noSpace hfollows
    have hword : ∀ {c : Char}, ' ' ≠ c → ∀ rest, ¬" with priority ".toList <+: c :: rest :=
      fun hc rest => Text.not_prefix_of_ne hc rest
    have hor : ∀ rest, ¬" with priority ".toList <+: ' ' :: 'o' :: rest := fun rest hp =>
      Text.not_prefix_of_ne (by decide) rest (List.cons_prefix_cons.1 hp).2
    have hskip : Text.cut? " with priority ".toList
          (" or ".toList ++ (writtenKinds (next :: kinds) ++ behind))
        = (Text.cut? " with priority ".toList behind).map
            fun (before, rest) => (" or ".toList ++ writtenKinds (next :: kinds) ++ before, rest) := by
      show Text.cut? _ (' ' :: 'o' :: 'r' :: ' ' :: (writtenKinds (next :: kinds) ++ behind)) = _
      rw [Text.cut?_cons (hor _), Text.cut?_cons (hword (by decide) _),
        Text.cut?_cons (hword (by decide) _), Text.cut?_cons hpriority, ih]
      simp only [Option.map_map]
      rfl
    rw [writtenKinds_cons, List.append_assoc, List.append_assoc]
    refine (Text.cut?_append hkind.noSpace _).trans ((congrArg (Option.map _) hskip).trans ?_)
    rw [Option.map_map]
    simp only [Function.comp_def, List.append_assoc]

/-- A header is read as its kinds and the tier that stands behind them. -/
theorem read_headerWith (hne : kinds ≠ []) (h : ∀ kind ∈ kinds, IsWord kind) {behind : List Char}
    {tier : Tier} (htier : ∀ header, Header.cutTier header (writtenKinds kinds ++ behind)
      = .ok (writtenKinds kinds, tier)) :
    Header.read (headerWith kinds behind) = .ok ⟨kinds, tier⟩ := by
  have hkinds := kindsOf_writtenKinds hne h
  have hnonempty : kinds.isEmpty = false := List.isEmpty_eq_false_iff.2 hne
  have hlist : (headerWith kinds behind).toList = "on ".toList ++ (writtenKinds kinds ++ behind) :=
    String.toList_ofList
  rw [Header.read, hlist, Text.stripPrefix?_append]
  simp only [htier, hkinds, hnonempty]
  rfl

/-- **A header with its tier is read again**, with any text that names the tier. -/
theorem read_header (hne : kinds ≠ []) (h : ∀ kind ∈ kinds, IsWord kind) {text : List Char}
    {tier : Tier} (htier : Tier.read (String.ofList text) = .ok tier) :
    Header.read (writtenHeader kinds text) = .ok ⟨kinds, tier⟩ := by
  refine read_headerWith hne h fun header => ?_
  have hfollows : Follows (" with priority ".toList ++ text) :=
    .inr ⟨'w', "ith priority ".toList ++ text, by decide, rfl⟩
  have hcut : Text.cut? " with priority ".toList (" with priority ".toList ++ text)
      = some ([], text) := Text.cut?_prefix _ _ text
  simp only [Header.cutTier, cut?_writtenKinds hfollows hne h, hcut, Option.map_some, htier,
    List.append_nil]

/-- **A header without a tier is read again** as one of the tier in the middle. -/
theorem read_plainHeader (hne : kinds ≠ []) (h : ∀ kind ∈ kinds, IsWord kind) :
    Header.read (plainHeader kinds) = .ok ⟨kinds, .normal⟩ := by
  refine read_headerWith hne h fun header => ?_
  have hcut := cut?_writtenKinds (.inl rfl) hne h
  rw [show Text.cut? " with priority ".toList [] = none from rfl, List.append_nil] at hcut
  rw [List.append_nil, Header.cutTier, hcut]
  rfl

/-- **Headers that are written are read again**: with a tier that is spelled in any letter case
and between any blanks, and without one. -/
theorem read_written (hne : kinds ≠ []) (h : ∀ kind ∈ kinds, IsWord kind) {tier : Tier}
    {text : List Char} (htext : tier.Spells text) :
    Header.read (writtenHeader kinds text) = .ok ⟨kinds, tier⟩ ∧
      Header.read (plainHeader kinds) = .ok ⟨kinds, .normal⟩ :=
  ⟨read_header hne h (Tier.read_of_spells htext), read_plainHeader hne h⟩

/-- The words between kinds are kinds themselves. -/
theorem read_written_separators :
    (["or", "with", "priority"] ≠ ([] : List Kind) ∧
      (∀ kind ∈ ["or", "with", "priority"], IsWord kind) ∧ Tier.high.Spells " HiGH\t".toList) ∧
    Header.read "on or or with or priority with priority  HiGH\t"
      = .ok ⟨["or", "with", "priority"], .high⟩ ∧
    Header.read "on or or with or priority" = .ok ⟨["or", "with", "priority"], .normal⟩ := by
  have hne : ["or", "with", "priority"] ≠ ([] : List Kind) := List.cons_ne_nil _ _
  have hplain : ∀ kind ∈ ["or", "with", "priority"],
      kind ≠ "" ∧ kind.toList.any Text.isBlank = false := by decide +kernel
  have hwords : ∀ kind ∈ ["or", "with", "priority"], IsWord kind :=
    fun kind hkind => isWord_of_any (hplain kind hkind).1 (hplain kind hkind).2
  have hspells : Tier.high.Spells " HiGH\t".toList :=
    ⟨[' '], "HiGH".toList, ['\t'], by decide, List.forall_mem_singleton.2 rfl,
      List.forall_mem_singleton.2 rfl, by decide⟩
  have htier : writtenHeader ["or", "with", "priority"] " HiGH\t".toList
      = "on or or with or priority with priority  HiGH\t" := by decide +kernel
  have hnone : plainHeader ["or", "with", "priority"] = "on or or with or priority" := by
    decide +kernel
  have hread := read_written hne hwords hspells
  rw [htier, hnone] at hread
  exact ⟨⟨hne, hwords, hspells⟩, hread⟩

end EventScripts.Demo
