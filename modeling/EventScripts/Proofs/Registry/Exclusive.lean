import EventScripts.Proofs.Path.Marker
import EventScripts.Proofs.Registry.Operation
/-!
# Loaded or marked, not both

A script that is loaded is to have no marker. The two sets spell a path in two
ways, `a.sk` and `-a.sk`, and the operations go from one spelling to the other
and back. That works for paths without a dash; a file name that starts with one
is its own marker, and the script of that marker is another file. So a script
with a dash may be marked while it is loaded. Besides, a callback may enter a
script that is just being unloaded, which then leaves its marker behind.

`never_loaded_and_disabled_iff` says that nothing else goes wrong.

`SPEC_FULL.md` §3 wants a path to be loaded or disabled-marked, never both.
-/

namespace EventScripts

namespace Registry

variable {σ : Type}

namespace Op

/-- The operation enters only paths of `may`, and while a script is being unloaded, its path only
if it is one of `again`. -/
def Allowed (may again : Path → Prop) (registry : Registry σ) : Op σ → Prop
  | insert script => may script.path
  | mark _ | retain _ => True
  | unload paths entered =>
    ∀ s ∈ entered, may s.path ∧ ∀ u ∈ (registry.take paths).1, s.path.same u.path → again s.path

/-- Each operation is allowed where it takes place. -/
def AllAllowed (may again : Path → Prop) (registry : Registry σ) : List (Op σ) → Prop
  | [] => True
  | op :: rest => op.Allowed may again registry ∧ AllAllowed may again (op.apply registry) rest

end Op

/-! ## What the operations find -/

theorem isDisabled_congr {registry : Registry σ} {a b : Path} (h : a.components = b.components) :
    registry.isDisabled a = registry.isDisabled b :=
  Ordered.contains_congr (Path.keyCompare_eq_iff.2 (Path.components_disabled_congr h)) _

theorem isDisabled_eq_false_iff {registry : Registry σ} {path : Path} :
    registry.isDisabled path = false ↔
      ∀ m ∈ registry.disabled, path.disabled.components ≠ m.components := by
  simp [isDisabled, Ordered.contains_eq_false_iff, Path.keyCompare_eq_iff]

/-- What is taken out is no longer there. -/
theorem components_ne_of_take {registry : Registry σ} {paths : List Path} {s u : Script σ}
    (hs : s ∈ (registry.take paths).2.loaded) (hu : u ∈ (registry.take paths).1) :
    s.path.components ≠ u.path.components := by
  obtain ⟨-, p, hp, hup⟩ := mem_take hu
  exact fun h => (not_mem_paths_of_left hs).2 ⟨p, hp, h.trans hup⟩

/-! ## The invariant -/

/-- A loaded script has no dash, and no marker. -/
def Tidy (registry : Registry σ) : Prop :=
  ∀ s ∈ registry.loaded, s.path.isDisabled = false ∧ registry.isDisabled s.path = false

theorem Tidy.not_both {registry : Registry σ} (h : registry.Tidy) (path : Path) :
    ¬(registry.isLoaded path = true ∧ registry.isDisabled path = true) := by
  rintro ⟨hl, hd⟩
  obtain ⟨s, hs, hp⟩ := isLoaded_eq_true_iff.1 hl
  rw [isDisabled_congr hp, (h s hs).2] at hd
  cases hd

theorem tidy_insert {registry after : Registry σ} {script : Script σ} (h : registry.Tidy)
    (hd : script.path.isDisabled = false) (hi : registry.insert script = .ok after) :
    after.Tidy := by
  obtain ⟨-, rfl⟩ := insert_eq_ok hi
  intro s hs
  rcases Ordered.mem_of_mem_insert hs with rfl | hs
  · refine ⟨hd, isDisabled_eq_false_iff.2 fun m hm => ?_⟩
    have := (Ordered.mem_erase.1 hm).2
    rwa [Ne, Path.keyCompare_eq_iff] at this
  · refine ⟨(h s hs).1, isDisabled_eq_false_iff.2 fun m hm => ?_⟩
    exact isDisabled_eq_false_iff.1 (h s hs).2 m (Ordered.mem_erase.1 hm).1

theorem tidy_enterEach : ∀ (scripts : List (Script σ)) {registry : Registry σ}, registry.Tidy →
    (∀ s ∈ scripts, s.path.isDisabled = false) → (registry.enterEach scripts).Tidy
  | [], _, h, _ => h
  | script :: rest, registry, h, hd => by
    have hrest : ∀ s ∈ rest, s.path.isDisabled = false := fun s hs => hd s (by simp [hs])
    unfold enterEach
    cases hi : registry.insert script with
    | error _ => exact tidy_enterEach rest h hrest
    | ok after => exact tidy_enterEach rest (tidy_insert h (hd script (by simp)) hi) hrest

/-- A marker is ignored if its script is loaded, and the script of the marker of a loaded script
without a dash is that script. -/
theorem tidy_mark {registry : Registry σ} (h : registry.Tidy) (path : Path) :
    (registry.markDisabled path).1.Tidy := by
  unfold markDisabled
  simp only
  split
  · exact h
  · next hl =>
    split
    · exact h
    · intro s hs
      refine ⟨(h s hs).1, isDisabled_eq_false_iff.2 fun m hm => ?_⟩
      rcases Ordered.mem_of_mem_insert hm with rfl | hm
      · intro hc
        refine hl (isLoaded_eq_true_iff.2 ⟨s, hs, ?_⟩)
        exact Path.components_enabled_disabled (h s hs).1 hc.symm
      · exact isDisabled_eq_false_iff.1 (h s hs).2 m hm

theorem tidy_retain {registry : Registry σ} (h : registry.Tidy) (keep : Path → Bool) :
    (registry.retainDisabled keep).1.Tidy := by
  intro s hs
  refine ⟨(h s hs).1, isDisabled_eq_false_iff.2 fun m hm => ?_⟩
  exact isDisabled_eq_false_iff.1 (h s hs).2 m (List.mem_filter.1 hm).1

theorem tidy_take {registry : Registry σ} (h : registry.Tidy) (paths : List Path) :
    (registry.take paths).2.Tidy :=
  fun s hs => h s (not_mem_paths_of_left hs).1

/-- The markers left behind are those of scripts that are not there. -/
theorem tidy_leaveMarkers {registry : Registry σ} {paths : List Path} (h : registry.Tidy)
    (hd : ∀ p ∈ paths, p.isDisabled = false)
    (hp : ∀ p ∈ paths, ∀ s ∈ registry.loaded, s.path.components ≠ p.components) :
    (registry.leaveMarkers paths).Tidy := by
  intro s hs
  refine ⟨(h s hs).1, isDisabled_eq_false_iff.2 fun m hm => ?_⟩
  have hm' : m ∈ (paths.map Path.disabled).foldl
      (fun ds p => Ordered.insert Path.keyCompare p ds) registry.disabled := by
    rw [List.foldl_map]
    exact hm
  rcases Ordered.mem_of_mem_foldl_insert _ hm' with hm' | hm'
  · obtain ⟨p, hpm, rfl⟩ := List.mem_map.1 hm'
    intro hc
    exact hp p hpm s hs (Path.components_eq_of_disabled (h s hs).1 (hd p hpm) hc)
  · exact isDisabled_eq_false_iff.1 (h s hs).2 m hm'

/-! ## Runs -/

variable {may again : Path → Prop}

theorem Op.tidy_apply {registry : Registry σ} (hm : ∀ a, may a → a.isDisabled = false ∧ ¬again a)
    (h : registry.Tidy) (op : Op σ) (ha : op.Allowed may again registry) :
    (op.apply registry).Tidy := by
  cases op with
  | insert script =>
    exact tidy_enterEach _ h fun s hs => by
      rw [List.mem_singleton.1 hs]
      exact (hm _ ha).1
  | mark path => exact tidy_mark h path
  | retain keep => exact tidy_retain h keep
  | unload paths entered =>
    refine tidy_leaveMarkers (tidy_enterEach _ (tidy_take h paths) fun s hs => (hm _ (ha s hs).1).1)
      ?_ ?_
    · intro p hp
      obtain ⟨u, hu, rfl⟩ := List.mem_map.1 hp
      exact (h u (mem_take hu).1).1
    · intro p hp s hs
      obtain ⟨u, hu, rfl⟩ := List.mem_map.1 hp
      rcases mem_enterEach hs with hs | hs
      · intro hc
        exact (hm _ (ha s hs).1).2 ((ha s hs).2 u hu (Path.same_iff.2 hc))
      · exact components_ne_of_take hs hu

theorem Op.tidy_applyAll (hm : ∀ a, may a → a.isDisabled = false ∧ ¬again a) :
    ∀ (ops : List (Op σ)) {registry : Registry σ}, registry.Tidy →
      AllAllowed may again registry ops → (applyAll registry ops).Tidy
  | [], _, h, _ => h
  | op :: rest, _, h, ha => tidy_applyAll hm rest (tidy_apply hm h op ha.1) ha.2

/-! ## What goes wrong otherwise -/

theorem isDisabled_of_mem {registry : Registry σ} {path : Path}
    (h : path.disabled ∈ registry.disabled) : registry.isDisabled path = true :=
  Ordered.contains_eq_true_iff.2 ⟨_, h, Path.keyCompare_eq_iff.2 rfl⟩

/-- A registry with one script. -/
def single (path : Path) : Registry σ := { loaded := [⟨path, []⟩] }

theorem apply_insert_empty (path : Path) :
    Op.apply ({} : Registry σ) (.insert ⟨path, []⟩) = single path := rfl

/-- A script with a dash is not the script of its marker, so the marker is not ignored. -/
theorem both_of_dash {path : Path} (h : path.isDisabled = true) :
    ((Op.apply (single path : Registry σ) (.mark path)).isLoaded path = true) ∧
      (Op.apply (single path : Registry σ) (.mark path)).isDisabled path = true := by
  have hl : (single path : Registry σ).isLoaded path.disabled.enabled = false := by
    rw [Bool.eq_false_iff, Ne, isLoaded_eq_true_iff]
    rintro ⟨s, hs, hc⟩
    rw [List.mem_singleton.1 hs, Path.disabled_of_isDisabled h] at hc
    exact Path.components_enabled_ne h hc
  have hm : Op.apply (single path : Registry σ) (.mark path)
      = { loaded := [⟨path, []⟩], disabled := [path.disabled] } := by
    simp only [Op.apply, markDisabled, hl]
    rfl
  rw [hm]
  exact ⟨isLoaded_of_mem (s := ⟨path, []⟩) (by simp), isDisabled_of_mem (by simp)⟩

/-- A script that is entered again while it is unloaded is there when its marker is left. -/
theorem both_of_again (path : Path) :
    ((Op.apply (single path : Registry σ) (.unload [path] [⟨path, []⟩])).isLoaded path = true) ∧
      (Op.apply (single path : Registry σ) (.unload [path] [⟨path, []⟩])).isDisabled path
        = true := by
  have hself : Path.keyCompare path path = .eq := Path.keyCompare_eq_iff.2 rfl
  have ht : (single path : Registry σ).take [path] = ([⟨path, []⟩], {}) := by
    simp [take, single, script?, Ordered.ofList, Ordered.insert, Ordered.contains, hself]
  have hu : Op.apply (single path : Registry σ) (.unload [path] [⟨path, []⟩])
      = (single path).leaveMarkers [path] := by
    simp only [Op.apply, ht]
    rfl
  rw [hu]
  exact ⟨isLoaded_of_mem (s := ⟨path, []⟩) (by simp [leaveMarkers, single]),
    isDisabled_of_mem (by simp [leaveMarkers, single, Ordered.insert])⟩

/-- **No path is ever both loaded and disabled**, whatever operations follow each other on an empty
registry, exactly if no path with a dash may be entered and no script may be entered again while it
is being unloaded. -/
theorem never_loaded_and_disabled_iff (may again : Path → Prop) :
    (∀ ops : List (Op σ), Op.AllAllowed may again {} ops →
        ∀ path, ¬((Op.applyAll {} ops).isLoaded path = true ∧
          (Op.applyAll {} ops).isDisabled path = true)) ↔
      ∀ path, may path → path.isDisabled = false ∧ ¬again path := by
  constructor
  · intro h path hp
    constructor
    · by_contra hd
      have hallowed : Op.AllAllowed may again {} [.insert (⟨path, []⟩ : Script σ), .mark path] :=
        ⟨hp, trivial, trivial⟩
      refine h _ hallowed path ?_
      rw [Op.applyAll, apply_insert_empty]
      exact both_of_dash (by simpa using hd)
    · intro ha
      have hallowed : Op.AllAllowed may again {}
          [.insert (⟨path, []⟩ : Script σ), .unload [path] [⟨path, []⟩]] := by
        refine ⟨hp, fun s hs => ?_, trivial⟩
        rw [List.mem_singleton.1 hs]
        exact ⟨hp, fun _ _ _ => ha⟩
      refine h _ hallowed path ?_
      rw [Op.applyAll, apply_insert_empty]
      exact both_of_again path
  · intro hm ops ha
    have hempty : Tidy ({} : Registry σ) := fun s hs => by cases hs
    exact (Op.tidy_applyAll hm ops hempty ha).not_both

/-- A script with a dash, entered and then marked, is both. -/
theorem loaded_and_disabled_dash :
    let registry := Op.applyAll ({} : Registry Empty) [.insert ⟨⟨"s/-a.sk"⟩, []⟩, .mark ⟨"s/-a.sk"⟩]
    registry.isLoaded ⟨"s/-a.sk"⟩ = true ∧ registry.isDisabled ⟨"s/-a.sk"⟩ = true := by
  decide +kernel

end Registry

end EventScripts
