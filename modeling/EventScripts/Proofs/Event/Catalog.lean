import EventScripts.Event.Catalog
/-!
# Declared kinds

The kinds that a catalog knows are those in its table. Of another kind nothing
is known, and so it has no ancestor but itself (`isA_of_not_contains`).
-/

namespace EventScripts.Catalog

variable {catalog : Catalog} {kind above : Kind}

theorem mem_kinds_of_contains (h : catalog.contains kind = true) : kind ∈ catalog.kinds := by
  obtain ⟨info, hinfo⟩ := Option.isSome_iff_exists.1 h
  obtain ⟨front, behind, hentries, -⟩ := List.lookup_eq_some_iff.1 hinfo
  rw [kinds, hentries]
  simp

theorem lineage_of_lookup_eq_none : ∀ {entries : List (Kind × KindInfo)},
    entries.lookup kind = none → lineage entries kind = [kind]
  | [], _ => rfl
  | (k, info) :: older, h => by
    by_cases hk : k = kind
    · subst hk
      simp at h
    · rw [List.lookup_cons, beq_false_of_ne (Ne.symm hk)] at h
      rw [lineage, if_neg hk]
      exact lineage_of_lookup_eq_none h

/-- A kind that is not declared is nothing but itself. -/
theorem isA_of_not_contains (h : catalog.contains kind = false) :
    catalog.isA kind above = true ↔ above = kind := by
  rw [contains, Option.isSome_eq_false_iff, Option.isNone_iff_eq_none] at h
  rw [isA, lineage_of_lookup_eq_none h, List.contains_iff_mem, List.mem_singleton]

end EventScripts.Catalog
