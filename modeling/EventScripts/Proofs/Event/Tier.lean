import EventScripts.Event.Tier
import EventScripts.Proofs.Text.Written
import Mathlib.Data.List.Basic
/-!
# Names of tiers

A tier is read from its name, in any letter case and between any blanks
(`read_of_spells`).
-/

namespace EventScripts

namespace Text

/-- The letter case of a character has nothing to do with blanks. -/
theorem isBlank_toLower (c : Char) : isBlank c.toLower = isBlank c := by
  unfold Char.toLower
  split
  · next h =>
    have hcode : 65 ≤ c.val.toNat ∧ c.val.toNat ≤ 90 :=
      ⟨UInt32.le_iff_toNat_le.1 h.1, UInt32.le_iff_toNat_le.1 h.2⟩
    have hlower : (c.val + ('a'.val - 'A'.val)).toNat = c.val.toNat + 32 := by
      rw [UInt32.toNat_add]
      exact Nat.mod_eq_of_lt (show c.val.toNat + 32 < 2 ^ 32 by omega)
    rw [isBlank, isBlank, Char.toNat, Char.toNat, hlower, Bool.eq_iff_iff]
    simp only [isBlankCode, Bool.or_eq_true, Bool.and_eq_true, beq_iff_eq, decide_eq_true_eq]
    omega
  · rfl

/-- Blanks around a text are trimmed away. -/
theorem trim_between {before cs after : List Char} (hbefore : ∀ c ∈ before, isBlank c = true)
    (hafter : ∀ c ∈ after, isBlank c = true) (hne : cs ≠ [])
    (h : ∀ c ∈ cs, isBlank c = false) : trim (before ++ cs ++ after) = cs := by
  have hend : trimEnd (before ++ cs) = before ++ cs := by
    refine trimEnd_of_getLast? fun c hc => h c ?_
    rw [List.getLast?_append_of_ne_nil _ hne] at hc
    exact List.mem_of_getLast? hc
  rw [trim, trimEnd_append hafter, hend]
  exact (margin_append hbefore fun c hc => h c (List.mem_of_mem_head? hc)).2

end Text

namespace Tier

/-- The text is the name of the tier in some letter case, between blanks. -/
def Spells (tier : Tier) (text : List Char) : Prop :=
  ∃ before word after, text = before ++ word ++ after ∧
    (∀ c ∈ before, Text.isBlank c = true) ∧ (∀ c ∈ after, Text.isBlank c = true) ∧
    word.map Char.toLower = tier.name.toList

theorem name_plain (tier : Tier) :
    tier.name.toList ≠ [] ∧ ∀ c ∈ tier.name.toList, Text.isBlank c = false := by
  have hname : tier.name.toList ≠ [] ∧ tier.name.toList.any Text.isBlank = false := by
    cases tier <;> decide +kernel
  exact ⟨hname.1, fun c hc => Bool.eq_false_iff.2 (List.any_eq_false.1 hname.2 c hc)⟩

theorem find?_name (tier : Tier) :
    all.find? (fun other => other.name.toList == tier.name.toList) = some tier := by
  cases tier <;> decide

/-- **A tier is read** from every text that spells its name. -/
theorem read_of_spells {tier : Tier} {text : List Char} (h : tier.Spells text) :
    read (String.ofList text) = .ok tier := by
  obtain ⟨before, word, after, rfl, hbefore, hafter, hword⟩ := h
  obtain ⟨hne, hplain⟩ := tier.name_plain
  have hnonempty : word ≠ [] := by
    rintro rfl
    exact hne hword.symm
  have hblank : ∀ c ∈ word, Text.isBlank c = false := by
    intro c hc
    rw [← Text.isBlank_toLower]
    exact hplain _ (hword ▸ List.mem_map_of_mem hc)
  have htrim := Text.trim_between hbefore hafter hnonempty hblank
  simp only [read, String.toList_ofList, htrim, hword, find?_name]

end Tier

end EventScripts
