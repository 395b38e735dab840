import EventScripts.Proofs.Registry.Order
/-!
# Entering scripts and taking them out again

Scripts that are entered under free paths come in between those that are loaded,
and taking them out leaves these as they were. With the markers it is different:
entering a script removes its marker, taking it out leaves it behind, so that
afterwards it is there whether or not it was before.
-/

namespace EventScripts

namespace Ordered

variable {α : Type} {cmp : α → α → Ordering}

/-- An element that is not let through makes no difference to what is. -/
theorem filter_insert {p : α → Bool} {x : α} (h : p x = false) : ∀ ys : List α,
    (insert cmp x ys).filter p = ys.filter p
  | [] => by simp [insert, h]
  | y :: ys => by
    simp only [insert]
    split
    · simp [h]
    · rfl
    · rw [List.filter_cons, List.filter_cons, filter_insert h ys]

theorem contains_erase [Std.TransCmp cmp] {x z : α} {ys : List α} :
    contains cmp z (erase cmp x ys) = true ↔ contains cmp z ys = true ∧ cmp z x ≠ .eq := by
  simp only [contains_eq_true_iff, mem_erase]
  constructor
  · rintro ⟨y, ⟨hy, hne⟩, hzy⟩
    refine ⟨⟨y, hy, hzy⟩, fun hzx => hne ?_⟩
    exact Std.OrientedCmp.eq_comm.1 (Std.TransCmp.congr_right hzx ▸ Std.OrientedCmp.eq_comm.1 hzy)
  · rintro ⟨⟨y, hy, hzy⟩, hne⟩
    refine ⟨y, ⟨hy, fun hxy => hne ?_⟩, hzy⟩
    exact Std.TransCmp.eq_trans hzy (Std.OrientedCmp.eq_comm.1 hxy)

end Ordered

namespace Registry

variable {σ : Type}

/-- The scripts that are entered leave the others as they were. -/
theorem filter_enterEach {p : Script σ → Bool} : ∀ {scripts : List (Script σ)}
    {registry : Registry σ}, (∀ s ∈ scripts, p s = false) →
    (registry.enterEach scripts).loaded.filter p = registry.loaded.filter p
  | [], _, _ => rfl
  | script :: rest, registry, h => by
    have hrest : ∀ s ∈ rest, p s = false := fun s hs => h s (List.mem_cons_of_mem _ hs)
    unfold enterEach
    cases hi : registry.insert script with
    | error _ => exact filter_enterEach hrest
    | ok after =>
      obtain ⟨-, rfl⟩ := insert_eq_ok hi
      exact (filter_enterEach hrest).trans (Ordered.filter_insert (h script List.mem_cons_self) _)

/-- The markers before and those that the scripts leave are the markers that are left when the
scripts are entered, and again those that they leave. -/
theorem contains_enterEach (p : Path) : ∀ (scripts : List (Script σ)) (registry : Registry σ),
    (Ordered.contains Path.keyCompare p (registry.enterEach scripts).disabled = true ∨
      ∃ s ∈ scripts, p.same s.path.disabled = true) ↔
    (Ordered.contains Path.keyCompare p registry.disabled = true ∨
      ∃ s ∈ scripts, p.same s.path.disabled = true)
  | [], _ => Iff.rfl
  | script :: rest, registry => by
    have hrest : ∀ registry : Registry σ, (Ordered.contains Path.keyCompare p
        (registry.enterEach rest).disabled = true ∨
          ∃ s ∈ script :: rest, p.same s.path.disabled = true) ↔
        (Ordered.contains Path.keyCompare p registry.disabled = true ∨
          ∃ s ∈ script :: rest, p.same s.path.disabled = true) := by
      intro registry
      simp only [List.mem_cons, exists_eq_or_imp]
      rw [or_left_comm, contains_enterEach p rest registry, or_left_comm]
    unfold enterEach
    cases hi : registry.insert script with
    | error _ => exact hrest registry
    | ok after =>
      obtain ⟨-, rfl⟩ := insert_eq_ok hi
      refine (hrest _).trans ?_
      simp only [Ordered.contains_erase, ne_eq, Path.keyCompare_eq_iff, Path.same_iff,
        List.mem_cons, exists_eq_or_imp]
      by_cases hp : p.components = script.path.disabled.components
      · simp [hp]
      · simp [hp]

variable {registry : Registry σ} {scripts : List (Script σ)} {paths : List Path}

/-- **Scripts that are entered and taken out again**, by paths that name all of them and nothing
that was loaded before: they are what is taken out, and what is left is what was loaded. -/
theorem take_enterEach (ha : Apart registry.loaded) (hapart : Apart scripts)
    (hfree : ∀ s ∈ scripts, registry.isLoaded s.path = false)
    (hold : ∀ s ∈ registry.loaded, paths.any s.path.same = false)
    (hnew : ∀ s ∈ scripts, paths.any s.path.same = true) :
    ((registry.enterEach scripts).take paths).1.Perm scripts ∧
      ((registry.enterEach scripts).take paths).2.loaded = registry.loaded := by
  have hpaths : ∀ p ∈ scripts.map (·.path), registry.isLoaded p = false := by
    intro p hp
    obtain ⟨s, hs, rfl⟩ := List.mem_map.1 hp
    exact hfree s hs
  have hloaded := loaded_enterEach_of_free hapart hpaths
  have hafter : Apart (registry.enterEach scripts).loaded := apart_enterEach scripts ha
  have hnamed : ∀ s : Script σ,
      paths.any s.path.same = true ↔ ∃ p ∈ paths, s.path.components = p.components := by
    intro s
    rw [List.any_eq_true]
    simp only [Path.same_iff]
  constructor
  · rw [List.perm_ext_iff_of_nodup (apart_take _ paths).nodup hapart.nodup]
    intro s
    rw [mem_take_iff hafter, ← hnamed, hloaded.mem_iff, List.mem_append]
    constructor
    · rintro ⟨hs | hs, hn⟩
      · exact hs
      · rw [hold s hs] at hn
        cases hn
    · exact fun hs => ⟨Or.inl hs, hnew s hs⟩
  · rw [take_snd, without]
    refine (filter_enterEach fun s hs => by rw [hnew s hs]; rfl).trans ?_
    exact List.filter_eq_self.2 fun s hs => by rw [hold s hs]; rfl

end Registry

end EventScripts
