import EventScripts.Proofs.Ordered
import EventScripts.Proofs.Path.Key
import EventScripts.Registry.Basic
import Mathlib.Data.List.Nodup
/-!
# The scripts of a registry

What it takes for a script to be loaded, what entering scripts adds to those
that are loaded, and how taking scripts out splits them. Scripts are told by the
components of their paths.
-/

namespace EventScripts.Registry

variable {σ : Type}

/-! ## Entering -/

theorem isLoaded_eq_true_iff {registry : Registry σ} {path : Path} :
    registry.isLoaded path = true ↔ ∃ s ∈ registry.loaded, path.components = s.path.components := by
  simp [isLoaded, script?, List.find?_isSome, Path.keyCompare_eq_iff]

theorem isLoaded_of_mem {registry : Registry σ} {s : Script σ} (h : s ∈ registry.loaded) :
    registry.isLoaded s.path = true :=
  isLoaded_eq_true_iff.2 ⟨s, h, rfl⟩

/-- A script is entered exactly if its path is free. -/
theorem insert_of_not_loaded {registry : Registry σ} {script : Script σ}
    (h : registry.isLoaded script.path = false) :
    registry.insert script = .ok {
      loaded := Ordered.insert (fun a b => Path.keyCompare a.path b.path) script registry.loaded
      disabled := Ordered.erase Path.keyCompare script.path.disabled registry.disabled } := by
  simp [insert, h]

theorem insert_of_loaded {registry : Registry σ} {script : Script σ}
    (h : registry.isLoaded script.path = true) :
    registry.insert script = .error (.alreadyLoaded script.path) := by
  simp [insert, h]

theorem insert_eq_ok {registry after : Registry σ} {script : Script σ}
    (h : registry.insert script = .ok after) :
    registry.isLoaded script.path = false ∧ after = {
      loaded := Ordered.insert (fun a b => Path.keyCompare a.path b.path) script registry.loaded
      disabled := Ordered.erase Path.keyCompare script.path.disabled registry.disabled } := by
  cases hl : registry.isLoaded script.path with
  | true =>
    rw [insert_of_loaded hl] at h
    cases h
  | false =>
    rw [insert_of_not_loaded hl] at h
    cases h
    exact ⟨rfl, rfl⟩

/-- A new script is added to those that are loaded. -/
theorem loaded_insert_perm {registry : Registry σ} {script : Script σ}
    (h : registry.isLoaded script.path = false) :
    (Ordered.insert (fun a b : Script σ => Path.keyCompare a.path b.path) script
      registry.loaded).Perm (script :: registry.loaded) := by
  refine Ordered.insert_perm (Ordered.contains_eq_false_iff.2 fun s hs hc => ?_)
  rw [Bool.eq_false_iff] at h
  exact h (isLoaded_eq_true_iff.2 ⟨s, hs, Path.keyCompare_eq_iff.1 hc⟩)

/-- Whether a path is loaded is a matter of what is loaded, and not of the markers. -/
theorem isLoaded_congr {registry other : Registry σ} (h : registry.loaded = other.loaded)
    (path : Path) : registry.isLoaded path = other.isLoaded path := by
  unfold isLoaded script?
  rw [h]

/-- Enters scripts in turn; one that is refused changes nothing. -/
def enterEach (registry : Registry σ) : List (Script σ) → Registry σ
  | [] => registry
  | script :: rest =>
    match registry.insert script with
    | .ok registry => registry.enterEach rest
    | .error _ => registry.enterEach rest

theorem enterEach_append (registry : Registry σ) : ∀ scripts more : List (Script σ),
    registry.enterEach (scripts ++ more) = (registry.enterEach scripts).enterEach more
  | [], _ => rfl
  | script :: rest, more => by
    simp only [List.cons_append, enterEach]
    split <;> exact enterEach_append _ rest more

/-- What is loaded when scripts have been entered does not depend on the markers. -/
theorem loaded_enterEach_congr : ∀ (scripts : List (Script σ)) {registry other : Registry σ},
    registry.loaded = other.loaded →
    (registry.enterEach scripts).loaded = (other.enterEach scripts).loaded
  | [], _, _, h => h
  | script :: rest, registry, other, h => by
    have hsame := isLoaded_congr h script.path
    unfold enterEach
    cases hl : registry.isLoaded script.path with
    | true =>
      rw [insert_of_loaded hl, insert_of_loaded (hsame ▸ hl)]
      exact loaded_enterEach_congr rest h
    | false =>
      rw [insert_of_not_loaded hl, insert_of_not_loaded (hsame ▸ hl)]
      exact loaded_enterEach_congr rest (by rw [h])

theorem mem_enterEach : ∀ {scripts : List (Script σ)} {registry : Registry σ} {s : Script σ},
    s ∈ (registry.enterEach scripts).loaded → s ∈ scripts ∨ s ∈ registry.loaded
  | [], _, _, h => Or.inr h
  | script :: rest, registry, s, h => by
    unfold enterEach at h
    cases hi : registry.insert script with
    | error _ =>
      rw [hi] at h
      rcases mem_enterEach h with h | h
      · exact Or.inl (by simp [h])
      · exact Or.inr h
    | ok after =>
      rw [hi] at h
      obtain ⟨-, rfl⟩ := insert_eq_ok hi
      rcases mem_enterEach h with h | h
      · exact Or.inl (by simp [h])
      · rcases Ordered.mem_of_mem_insert h with rfl | h
        · exact Or.inl (by simp)
        · exact Or.inr h

/-- The scripts differ in their paths. -/
def Apart (scripts : List (Script σ)) : Prop :=
  scripts.Pairwise fun a b => a.path.components ≠ b.path.components

theorem apart_iff {scripts : List (Script σ)} :
    Apart scripts ↔ (scripts.map (·.path)).Pairwise fun a b => a.components ≠ b.components := by
  rw [List.pairwise_map]
  rfl

/-- Another script's path is as free as it was. -/
theorem isLoaded_of_insert {registry after : Registry σ} {script : Script σ} {path : Path}
    (h : registry.insert script = .ok after) (hne : script.path.components ≠ path.components) :
    after.isLoaded path = registry.isLoaded path := by
  obtain ⟨hl, rfl⟩ := insert_eq_ok h
  rw [Bool.eq_iff_iff, isLoaded_eq_true_iff, isLoaded_eq_true_iff]
  constructor
  · rintro ⟨s, hs, hc⟩
    rcases List.mem_cons.1 ((loaded_insert_perm hl).mem_iff.1 hs) with rfl | hs
    · exact absurd hc.symm hne
    · exact ⟨s, hs, hc⟩
  · rintro ⟨s, hs, hc⟩
    exact ⟨s, (loaded_insert_perm hl).mem_iff.2 (by simp [hs]), hc⟩

theorem filter_free_of_insert {registry after : Registry σ} {script : Script σ}
    {rest : List (Script σ)} (h : registry.insert script = .ok after)
    (ha : Apart (script :: rest)) (p : Bool → Bool) :
    rest.filter (fun s => p (after.isLoaded s.path))
      = rest.filter fun s => p (registry.isLoaded s.path) :=
  List.filter_congr fun s hs => by
    rw [isLoaded_of_insert h ((List.pairwise_cons.1 ha).1 s hs)]

/-- **Of scripts that differ in their paths, those are entered whose paths are free.** -/
theorem loaded_enterEach_perm : ∀ {scripts : List (Script σ)} {registry : Registry σ},
    Apart scripts → (registry.enterEach scripts).loaded.Perm
      (scripts.filter (fun s => !registry.isLoaded s.path) ++ registry.loaded)
  | [], _, _ => List.Perm.refl _
  | script :: rest, registry, ha => by
    have hrest : Apart rest := (List.pairwise_cons.1 ha).2
    unfold enterEach
    cases hl : registry.isLoaded script.path with
    | true =>
      rw [insert_of_loaded hl, List.filter_cons_of_neg (by simp [hl])]
      exact loaded_enterEach_perm hrest
    | false =>
      have hi := insert_of_not_loaded hl
      rw [hi, List.filter_cons_of_pos (by simp [hl]),
        ← filter_free_of_insert hi ha fun b => !b]
      refine (loaded_enterEach_perm hrest).trans ?_
      exact ((loaded_insert_perm hl).append_left _).trans List.perm_middle

/-- If all paths are free, all are entered. -/
theorem loaded_enterEach_of_free {scripts : List (Script σ)} {registry : Registry σ}
    (ha : Apart scripts) (hfree : ∀ p ∈ scripts.map (·.path), registry.isLoaded p = false) :
    (registry.enterEach scripts).loaded.Perm (scripts ++ registry.loaded) := by
  have hall : scripts.filter (fun s => !registry.isLoaded s.path) = scripts :=
    List.filter_eq_self.2 fun s hs => by rw [hfree s.path (List.mem_map_of_mem hs)]; rfl
  have h : (registry.enterEach scripts).loaded.Perm _ := loaded_enterEach_perm ha
  rwa [hall] at h

/-- Where a script is refused, another is loaded in its place. -/
theorem isLoaded_enterEach {scripts : List (Script σ)} {registry : Registry σ} {s : Script σ}
    (ha : Apart scripts) (h : s ∈ scripts) :
    (registry.enterEach scripts).isLoaded s.path = true := by
  have hperm : (registry.enterEach scripts).loaded.Perm _ := loaded_enterEach_perm ha
  cases hl : registry.isLoaded s.path with
  | false =>
    exact isLoaded_of_mem (hperm.mem_iff.2 (List.mem_append_left _ (List.mem_filter.2
      ⟨h, by simp [hl]⟩)))
  | true =>
    obtain ⟨s', hs', hc⟩ := isLoaded_eq_true_iff.1 hl
    exact isLoaded_eq_true_iff.2 ⟨s', hperm.mem_iff.2 (List.mem_append_right _ hs'), hc⟩

theorem apart_insert {registry after : Registry σ} {script : Script σ}
    (h : registry.insert script = .ok after) (ha : Apart registry.loaded) :
    Apart after.loaded := by
  obtain ⟨hl, rfl⟩ := insert_eq_ok h
  refine ((loaded_insert_perm hl).pairwise_iff Ne.symm).2 (List.pairwise_cons.2 ⟨?_, ha⟩)
  intro s hs he
  rw [isLoaded_eq_true_iff.2 ⟨s, hs, he⟩] at hl
  cases hl

/-- Whatever scripts are entered, the loaded ones differ in their paths. -/
theorem apart_enterEach : ∀ (scripts : List (Script σ)) {registry : Registry σ},
    Apart registry.loaded → Apart (registry.enterEach scripts).loaded
  | [], _, ha => ha
  | script :: rest, registry, ha => by
    unfold enterEach
    split
    · next hi => exact apart_enterEach rest (apart_insert hi ha)
    · exact apart_enterEach rest ha

/-! ## Taking out -/

theorem Apart.nodup {scripts : List (Script σ)} (h : Apart scripts) : scripts.Nodup :=
  List.Pairwise.imp (fun hne he => hne (by rw [he])) h

/-- Scripts that differ in their paths are told by them. -/
theorem Apart.eq {scripts : List (Script σ)} (h : Apart scripts) {a b : Script σ}
    (ha : a ∈ scripts) (hb : b ∈ scripts) (he : a.path.components = b.path.components) : a = b := by
  refine List.inj_on_of_nodup_map (f := fun s : Script σ => s.path.components) ?_ ha hb he
  exact List.pairwise_map.2 h

/-- The script under a path is a loaded one of that path. -/
theorem script?_eq_some {registry : Registry σ} {path : Path} {s : Script σ}
    (h : registry.script? path = some s) :
    s ∈ registry.loaded ∧ path.components = s.path.components := by
  have hkey : Path.keyCompare path s.path = .eq := by simpa using List.find?_some h
  exact ⟨List.mem_of_find?_eq_some h, Path.keyCompare_eq_iff.1 hkey⟩

theorem contains_paths_iff {path : Path} {paths : List Path} :
    Ordered.contains Path.keyCompare path (Ordered.ofList Path.keyCompare paths) = true ↔
      ∃ p ∈ paths, path.components = p.components := by
  rw [Ordered.contains_ofList]
  simp [Ordered.contains_eq_true_iff, Path.keyCompare_eq_iff]

/-- A script that is taken out has been loaded and named. -/
theorem mem_take {registry : Registry σ} {paths : List Path} {s : Script σ}
    (h : s ∈ (registry.take paths).1) :
    s ∈ registry.loaded ∧ ∃ p ∈ paths, s.path.components = p.components := by
  obtain ⟨key, hk, hs⟩ := List.mem_filterMap.1 h
  obtain ⟨hloaded, hkey⟩ := script?_eq_some hs
  refine ⟨hloaded, contains_paths_iff.1 (Ordered.contains_eq_true_iff.2 ⟨key, hk, ?_⟩)⟩
  exact Path.keyCompare_eq_iff.2 hkey.symm

/-- Those that are left have not been named. -/
theorem not_mem_paths_of_left {registry : Registry σ} {paths : List Path} {s : Script σ}
    (h : s ∈ (registry.take paths).2.loaded) :
    s ∈ registry.loaded ∧ ¬∃ p ∈ paths, s.path.components = p.components := by
  obtain ⟨hloaded, hnot⟩ := List.mem_filter.1 h
  refine ⟨hloaded, fun hp => ?_⟩
  rw [contains_paths_iff.2 hp] at hnot
  cases hnot

theorem mem_take_iff {registry : Registry σ} (h : Apart registry.loaded) {paths : List Path}
    {s : Script σ} : s ∈ (registry.take paths).1 ↔
      s ∈ registry.loaded ∧ ∃ p ∈ paths, s.path.components = p.components := by
  refine ⟨mem_take, fun ⟨hs, hp⟩ => ?_⟩
  obtain ⟨key, hk, hkey⟩ := Ordered.contains_eq_true_iff.1 (contains_paths_iff.2 hp)
  rw [Path.keyCompare_eq_iff] at hkey
  refine List.mem_filterMap.2 ⟨key, hk, ?_⟩
  have hsome : (registry.script? key).isSome = true := isLoaded_eq_true_iff.2 ⟨s, hs, hkey.symm⟩
  obtain ⟨s', hs'⟩ := Option.isSome_iff_exists.1 hsome
  obtain ⟨hloaded, hkey'⟩ := script?_eq_some hs'
  rw [hs', h.eq hloaded hs (hkey'.symm.trans hkey.symm)]

theorem apart_take (registry : Registry σ) (paths : List Path) :
    Apart (registry.take paths).1 := by
  refine List.pairwise_filterMap.2 ((Ordered.sorted_ofList paths).ne.imp ?_)
  intro a b hab s hs t ht he
  have ha := (script?_eq_some hs).2
  have hb := (script?_eq_some ht).2
  exact hab (Path.keyCompare_eq_iff.2 (ha.trans (he.trans hb.symm)))

theorem apart_left {registry : Registry σ} (h : Apart registry.loaded) (paths : List Path) :
    Apart (registry.take paths).2.loaded :=
  h.sublist List.filter_sublist

/-- **Taking out** splits the loaded scripts into those taken and those left. -/
theorem take_perm {registry : Registry σ} (h : Apart registry.loaded) (paths : List Path) :
    registry.loaded.Perm ((registry.take paths).1 ++ (registry.take paths).2.loaded) := by
  have htaken : (registry.take paths).1.Perm (registry.loaded.filter fun s =>
      Ordered.contains Path.keyCompare s.path (Ordered.ofList Path.keyCompare paths)) := by
    rw [List.perm_ext_iff_of_nodup (apart_take registry paths).nodup
      (h.nodup.sublist List.filter_sublist)]
    intro s
    rw [mem_take_iff h, List.mem_filter, contains_paths_iff]
  exact (List.filter_append_perm _ _).symm.trans (htaken.symm.append_right _)

end EventScripts.Registry
