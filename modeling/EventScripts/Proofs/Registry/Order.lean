import EventScripts.Proofs.Registry.Operation
/-!
# The order of a registry

A registry lists its scripts and its markers in the order of their keys, and no
operation disturbs that. So the scripts that are taken out come as they were
listed, whatever the order in which their paths are named: taking out is
filtering (`take_eq`).
-/

namespace EventScripts

namespace Registry

variable {σ : Type}

instance : Std.TransCmp fun a b : Script σ => Path.keyCompare a.path b.path :=
  inferInstanceAs <| Std.TransCmp <| compareOn fun s : Script σ => Path.rank s.path.components

/-- Scripts and markers are in order. -/
structure InOrder (registry : Registry σ) : Prop where
  loaded : Ordered.Sorted (fun a b => Path.keyCompare a.path b.path) registry.loaded
  disabled : Ordered.Sorted Path.keyCompare registry.disabled

theorem inOrder_insert {registry after : Registry σ} {script : Script σ} (h : registry.InOrder)
    (hi : registry.insert script = .ok after) : after.InOrder := by
  obtain ⟨-, rfl⟩ := insert_eq_ok hi
  exact ⟨Ordered.sorted_insert h.loaded, h.disabled.sublist List.filter_sublist⟩

theorem inOrder_enterEach : ∀ (scripts : List (Script σ)) {registry : Registry σ},
    registry.InOrder → (registry.enterEach scripts).InOrder
  | [], _, h => h
  | script :: rest, registry, h => by
    unfold enterEach
    split
    · next hi => exact inOrder_enterEach rest (inOrder_insert h hi)
    · exact inOrder_enterEach rest h

theorem disabled_leaveMarkers (registry : Registry σ) (paths : List Path) :
    (registry.leaveMarkers paths).disabled
      = (paths.map Path.disabled).foldl (fun ds d => Ordered.insert Path.keyCompare d ds)
        registry.disabled := by
  rw [List.foldl_map]
  rfl

/-- The markers after unloading are those before and those that the scripts leave. -/
theorem contains_leaveMarkers (registry : Registry σ) (paths : List Path) (p : Path) :
    Ordered.contains Path.keyCompare p (registry.leaveMarkers paths).disabled = true ↔
      Ordered.contains Path.keyCompare p registry.disabled = true ∨
        ∃ q ∈ paths, p.same q.disabled = true := by
  rw [disabled_leaveMarkers, Ordered.contains_foldl_insert, or_comm]
  refine or_congr_right ?_
  rw [Ordered.contains_eq_true_iff]
  simp only [List.mem_map, exists_exists_and_eq_and, Path.keyCompare_eq_iff, Path.same_iff]

/-- **No operation disturbs the order.** -/
theorem Op.inOrder_apply {registry : Registry σ} (h : registry.InOrder) (op : Op σ) :
    (op.apply registry).InOrder := by
  cases op with
  | insert script => exact inOrder_enterEach [script] h
  | mark path =>
    unfold apply markDisabled
    simp only
    split
    · exact h
    · split
      · exact h
      · exact ⟨h.loaded, Ordered.sorted_insert h.disabled⟩
  | retain keep => exact ⟨h.loaded, h.disabled.sublist List.filter_sublist⟩
  | unload paths entered =>
    have hleft : (registry.take paths).2.InOrder :=
      ⟨h.loaded.sublist List.filter_sublist, h.disabled⟩
    have hentered := inOrder_enterEach entered hleft
    refine ⟨hentered.loaded, ?_⟩
    show Ordered.Sorted _ (leaveMarkers _ _).disabled
    rw [disabled_leaveMarkers]
    exact Ordered.sorted_foldl_insert _ hentered.disabled

theorem Op.inOrder_applyAll : ∀ (ops : List (Op σ)) {registry : Registry σ}, registry.InOrder →
    (applyAll registry ops).InOrder
  | [], _, h => h
  | op :: rest, _, h => inOrder_applyAll rest (inOrder_apply h op)

theorem inOrder_history (ops : List (Op σ)) :
    (Op.applyAll ({} : Registry σ) ops).InOrder :=
  Op.inOrder_applyAll ops ⟨List.Pairwise.nil, List.Pairwise.nil⟩

/-! ## Scripts in order -/

/-- Scripts come in the order in which a registry lists them. -/
def InKeyOrder (scripts : List (Script σ)) : Prop :=
  Ordered.Sorted (fun a b => Path.keyCompare a.path b.path) scripts

/-- Scripts in order differ in their paths. -/
theorem InKeyOrder.apart {scripts : List (Script σ)} (h : InKeyOrder scripts) : Apart scripts :=
  h.ne.imp fun hne he => hne (Path.keyCompare_eq_iff.2 he)

theorem InOrder.apart {registry : Registry σ} (h : registry.InOrder) : Apart registry.loaded :=
  InKeyOrder.apart h.loaded

/-- Scripts that are entered where nothing is loaded are listed in the order of their keys. -/
theorem inKeyOrder_enterEach {registry : Registry σ} (h : registry.loaded = [])
    (scripts : List (Script σ)) : InKeyOrder (registry.enterEach scripts).loaded := by
  have hsame : registry.loaded = ({} : Registry σ).loaded := h
  have hempty : ({} : Registry σ).InOrder := ⟨.nil, .nil⟩
  rw [loaded_enterEach_congr scripts hsame]
  exact (inOrder_enterEach scripts hempty).loaded

/-- If they come in the order of their keys, they are listed as they come. -/
theorem loaded_enterEach_of_sorted {registry : Registry σ} (h : registry.loaded = [])
    {scripts : List (Script σ)} (hs : InKeyOrder scripts) :
    (registry.enterEach scripts).loaded = scripts := by
  have hfree : ∀ p ∈ scripts.map (·.path), registry.isLoaded p = false := by
    intro p _
    rw [← Bool.not_eq_true, isLoaded_eq_true_iff, h]
    rintro ⟨s, hs, -⟩
    cases hs
  have hperm := loaded_enterEach_of_free hs.apart hfree
  rw [h, List.append_nil] at hperm
  refine hperm.eq_of_pairwise (fun a b _ _ hab hba => ?_) (inKeyOrder_enterEach h scripts) hs
  exact absurd hba (Std.OrientedCmp.not_lt_of_lt hab)

/-! ## Taking out -/

/-- The loaded scripts that are named, as they are listed. -/
def named (registry : Registry σ) (paths : List Path) : List (Script σ) :=
  registry.loaded.filter fun s => paths.any s.path.same

/-- The registry without the scripts that are named. -/
def without (registry : Registry σ) (paths : List Path) : Registry σ :=
  { registry with loaded := registry.loaded.filter fun s => !paths.any s.path.same }

/-- Paths are looked up by their keys, which is to say by what they are the same as. -/
theorem contains_ofList_eq (path : Path) (paths : List Path) :
    Ordered.contains Path.keyCompare path (Ordered.ofList Path.keyCompare paths)
      = paths.any path.same := by
  rw [Bool.eq_iff_iff, contains_paths_iff, List.any_eq_true]
  exact exists_congr fun p => and_congr_right fun _ => Path.same_iff.symm

theorem take_snd (registry : Registry σ) (paths : List Path) :
    (registry.take paths).2 = registry.without paths := by
  simp only [take, without, contains_ofList_eq]

/-- The scripts that are taken out are in order, as the keys are by which they are looked up. -/
theorem sorted_take (registry : Registry σ) (paths : List Path) :
    Ordered.Sorted (fun a b : Script σ => Path.keyCompare a.path b.path)
      (registry.take paths).1 := by
  refine List.pairwise_filterMap.2 ((Ordered.sorted_ofList paths).imp fun {a b} hlt s hs t ht => ?_)
  have ha := Path.keyCompare_eq_iff.2 (script?_eq_some hs).2
  have hb := Path.keyCompare_eq_iff.2 (script?_eq_some ht).2
  show Path.keyCompare s.path t.path = .lt
  rw [← Std.TransCmp.congr_left ha, ← Std.TransCmp.congr_right hb]
  exact hlt

theorem mem_named {registry : Registry σ} {paths : List Path} {s : Script σ} :
    s ∈ registry.named paths ↔
      s ∈ registry.loaded ∧ ∃ p ∈ paths, s.path.components = p.components := by
  rw [named, List.mem_filter, List.any_eq_true]
  simp only [Path.same_iff]

/-- Nothing is taken out if nothing loaded is named. -/
theorem take_of_unnamed {registry : Registry σ} {paths : List Path}
    (h : ∀ s ∈ registry.loaded, paths.any s.path.same = false) :
    registry.take paths = ([], registry) := by
  refine Prod.ext (List.eq_nil_iff_forall_not_mem.2 fun s hs => ?_) ?_
  · obtain ⟨hloaded, p, hp, hc⟩ := mem_take hs
    exact List.any_eq_false.1 (h s hloaded) p hp (Path.same_iff.2 hc)
  · have hall : registry.loaded.filter (fun s => !paths.any s.path.same) = registry.loaded :=
      List.filter_eq_self.2 fun s hs => by rw [h s hs]; rfl
    rw [take_snd, without, hall]

/-- **Taking out is filtering.** The named scripts come in registry order, each once. -/
theorem take_eq {registry : Registry σ} (h : registry.InOrder) (paths : List Path) :
    registry.take paths = (registry.named paths, registry.without paths) := by
  refine Prod.ext ?_ (take_snd registry paths)
  have hsorted : Ordered.Sorted (fun a b : Script σ => Path.keyCompare a.path b.path)
      (registry.named paths) := h.loaded.sublist List.filter_sublist
  have hperm : (registry.take paths).1.Perm (registry.named paths) := by
    have hnamed : (registry.named paths).Nodup := h.apart.nodup.sublist List.filter_sublist
    rw [List.perm_ext_iff_of_nodup (apart_take registry paths).nodup hnamed]
    intro s
    rw [mem_take_iff h.apart, mem_named]
  refine hperm.eq_of_pairwise (fun a b _ _ hab hba => ?_) (sorted_take registry paths) hsorted
  have hlt : Path.keyCompare a.path b.path = .lt := hab
  exact absurd hba (Std.OrientedCmp.not_lt_of_lt hlt)

end Registry

end EventScripts
