import EventScripts.Path.Key
/-!
# Keys and components

Keys are totally ordered, and two paths have the same key exactly if they have
the same components.
-/

namespace EventScripts

instance : Std.LawfulEqOrd Component where
  compare_self {a} := by
    show (compare a.sortKey.1 a.sortKey.1).then (compare a.sortKey.2 a.sortKey.2) = .eq
    simp
  eq_of_compare {a b} h := by
    have h' : (compare a.sortKey.1 b.sortKey.1).then (compare a.sortKey.2 b.sortKey.2) = .eq := h
    rw [Ordering.then_eq_eq, Std.compare_eq_iff_eq, Std.compare_eq_iff_eq] at h'
    cases a <;> cases b <;> simp_all [Component.sortKey]

instance : Std.TransOrd Component :=
  inferInstanceAs <| Std.TransCmp <| compareLex
    (compareOn fun c : Component => c.sortKey.1) (compareOn fun c : Component => c.sortKey.2)

namespace Path

instance : Std.TransOrd Ranked :=
  inferInstanceAs <| Std.TransCmp <| compareLex
    (compareOn fun r : Ranked => r.inner) (compareOn fun r : Ranked => r.component)

instance : Std.TransCmp keyCompare :=
  inferInstanceAs <| Std.TransCmp <| compareOn fun path : Path => rank path.components

instance : Std.LawfulEqOrd Ranked where
  compare_self {a} := by
    show (compare a.inner a.inner).then (compare a.component a.component) = .eq
    simp
  eq_of_compare {a b} h := by
    have h' : (compare a.inner b.inner).then (compare a.component b.component) = .eq := h
    rw [Ordering.then_eq_eq, Std.compare_eq_iff_eq, Std.compare_eq_iff_eq] at h'
    cases a; cases b
    simp_all

theorem map_component_rank : ∀ cs : List Component, (rank cs).map (·.component) = cs
  | [] => rfl
  | [_] => rfl
  | c :: d :: rest => by
    rw [rank, List.map_cons, map_component_rank (d :: rest)]
    simp

theorem rank_inj {cs ds : List Component} : rank cs = rank ds ↔ cs = ds := by
  constructor
  · intro h
    rw [← map_component_rank cs, h, map_component_rank]
  · rintro rfl; rfl

theorem keyCompare_eq_iff {a b : Path} : keyCompare a b = .eq ↔ a.components = b.components := by
  rw [keyCompare, Std.compare_eq_iff_eq, rank_inj]

theorem same_iff {a b : Path} : a.same b = true ↔ a.components = b.components := by
  simp [same]

end Path

end EventScripts
