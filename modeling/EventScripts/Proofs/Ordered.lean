import EventScripts.Ordered
/-!
# Ordered lists as sets

What the operations on ordered lists do to their elements, and that they keep
the order. Elements that compare equal count as one.
-/

namespace EventScripts.Ordered

variable {α : Type} {cmp : α → α → Ordering}

theorem contains_eq_true_iff {x : α} {ys : List α} :
    contains cmp x ys = true ↔ ∃ y ∈ ys, cmp x y = .eq := by
  simp [contains]

theorem contains_eq_false_iff {x : α} {ys : List α} :
    contains cmp x ys = false ↔ ∀ y ∈ ys, cmp x y ≠ .eq := by
  simp [contains]

theorem mem_erase {x y : α} {ys : List α} : y ∈ erase cmp x ys ↔ y ∈ ys ∧ cmp x y ≠ .eq := by
  simp [erase]

theorem mem_of_mem_insert {x y : α} : ∀ {ys : List α}, y ∈ insert cmp x ys → y = x ∨ y ∈ ys
  | [], h => by simpa [insert] using h
  | z :: zs, h => by
    simp only [insert] at h
    split at h
    · simpa using h
    · exact Or.inr h
    · rcases List.mem_cons.1 h with rfl | h
      · simp
      · rcases mem_of_mem_insert h with h | h
        · exact Or.inl h
        · exact Or.inr (by simp [h])

/-- An element that is new is added once. -/
theorem insert_perm {x : α} : ∀ {ys : List α}, contains cmp x ys = false →
    (insert cmp x ys).Perm (x :: ys)
  | [], _ => List.Perm.refl _
  | y :: ys, h => by
    rw [contains_eq_false_iff] at h
    simp only [insert]
    split
    · exact List.Perm.refl _
    · next heq => exact absurd heq (h y (by simp))
    · have ih : (insert cmp x ys).Perm (x :: ys) :=
        insert_perm (contains_eq_false_iff.2 fun z hz => h z (by simp [hz]))
      exact (ih.cons y).trans (List.Perm.swap x y ys)

theorem mem_of_mem_foldl_insert {z : α} : ∀ (xs : List α) {ys : List α},
    z ∈ xs.foldl (fun ys x => insert cmp x ys) ys → z ∈ xs ∨ z ∈ ys
  | [], _, h => Or.inr h
  | x :: xs, ys, h => by
    rcases mem_of_mem_foldl_insert xs h with h | h
    · exact Or.inl (by simp [h])
    · rcases mem_of_mem_insert h with rfl | h
      · exact Or.inl (by simp)
      · exact Or.inr h

/-- The order of the elements of an ordered list. -/
def Sorted (cmp : α → α → Ordering) (ys : List α) : Prop := ys.Pairwise fun a b => cmp a b = .lt

/-- The elements of an ordered list differ from each other. -/
theorem Sorted.ne {ys : List α} (h : Sorted cmp ys) : ys.Pairwise fun a b => cmp a b ≠ .eq :=
  h.imp fun hlt => by simp [hlt]

variable [Std.TransCmp cmp]

theorem contains_congr {x y : α} (h : cmp x y = .eq) (ys : List α) :
    contains cmp x ys = contains cmp y ys := by
  simp [contains, Std.TransCmp.congr_left h]

theorem contains_insert {x z : α} : ∀ {ys : List α},
    contains cmp z (insert cmp x ys) = true ↔ cmp z x = .eq ∨ contains cmp z ys = true
  | [] => by simp [insert, contains]
  | y :: ys => by
    simp only [insert]
    split
    · simp [contains]
    · next h =>
      have hzy : cmp z x = cmp z y := Std.TransCmp.congr_right h
      simp only [contains, List.any_cons, Bool.or_eq_true, beq_iff_eq, hzy]
      exact ⟨Or.inr, fun h => h.elim Or.inl id⟩
    · have ih : contains cmp z (insert cmp x ys) = true ↔
          cmp z x = .eq ∨ contains cmp z ys = true := contains_insert
      simp only [contains, List.any_cons, Bool.or_eq_true, beq_iff_eq] at ih ⊢
      rw [ih]
      exact or_left_comm

theorem sorted_insert {x : α} : ∀ {ys : List α}, Sorted cmp ys → Sorted cmp (insert cmp x ys)
  | [], _ => by simp [insert, Sorted]
  | y :: ys, h => by
    obtain ⟨hy, hys⟩ := List.pairwise_cons.1 h
    simp only [insert]
    split
    · next hlt =>
      refine List.pairwise_cons.2 ⟨fun z hz => ?_, h⟩
      rcases List.mem_cons.1 hz with rfl | hz
      · exact hlt
      · exact Std.TransCmp.lt_trans hlt (hy z hz)
    · exact h
    · next hgt =>
      refine List.pairwise_cons.2 ⟨fun z hz => ?_, sorted_insert hys⟩
      rcases mem_of_mem_insert hz with rfl | hz
      · exact Std.OrientedCmp.lt_of_gt hgt
      · exact hy z hz

theorem sorted_foldl_insert : ∀ (xs : List α) {ys : List α}, Sorted cmp ys →
    Sorted cmp (xs.foldl (fun ys x => insert cmp x ys) ys)
  | [], _, h => h
  | _ :: xs, _, h => sorted_foldl_insert xs (sorted_insert h)

theorem contains_foldl_insert {z : α} : ∀ (xs : List α) {ys : List α},
    contains cmp z (xs.foldl (fun ys x => insert cmp x ys) ys) = true ↔
      contains cmp z xs = true ∨ contains cmp z ys = true
  | [], _ => by simp [contains]
  | x :: xs, ys => by
    rw [List.foldl_cons, contains_foldl_insert xs, contains_insert]
    simp only [contains, List.any_cons, Bool.or_eq_true, beq_iff_eq]
    exact or_left_comm.trans (or_assoc.symm)

theorem sorted_ofList (xs : List α) : Sorted cmp (ofList cmp xs) :=
  sorted_foldl_insert xs (by simp [Sorted])

/-- A list is put in order without anything added or lost. -/
theorem contains_ofList {z : α} {xs : List α} :
    contains cmp z (ofList cmp xs) = true ↔ contains cmp z xs = true := by
  rw [ofList, contains_foldl_insert]
  simp [contains]

/-! ## What has keys -/

section

variable {β : Type}

omit [Std.TransCmp cmp] in
/-- A property that passes to what comes before holds of the front of a list. -/
theorem eq_filter_append {p : β → Bool} : ∀ {xs : List β},
    xs.Pairwise (fun a b => p b = true → p a = true) →
    xs = xs.filter p ++ xs.filter fun x => !p x
  | [], _ => rfl
  | x :: xs, h => by
    obtain ⟨hx, hxs⟩ := List.pairwise_cons.1 h
    cases hp : p x with
    | true =>
      rw [List.filter_cons_of_pos hp, List.filter_cons_of_neg (by simp [hp]), List.cons_append,
        ← eq_filter_append hxs]
    | false =>
      have hnone : ∀ y ∈ xs, ¬p y = true := fun y hy h => by
        cases hp.symm.trans (hx y hy h)
      rw [List.filter_cons_of_neg (by simp [hp]), List.filter_cons_of_pos (by simp [hp]),
        List.filter_eq_nil_iff.2 hnone, List.filter_eq_self.2 fun y hy => by simpa using hnone y hy]
      rfl

/-- **What has its place among keys that are in order**, and is in order itself, comes key by
key. -/
theorem eq_flatMap_filter {key : β → α} : ∀ {ys : List α} {xs : List β}, Sorted cmp ys →
    xs.Pairwise (fun a b => cmp (key a) (key b) ≠ .gt) →
    (∀ x ∈ xs, contains cmp (key x) ys = true) →
    xs = ys.flatMap fun y => xs.filter fun x => cmp (key x) y == .eq
  | [], xs, _, _, hmem => List.eq_nil_iff_forall_not_mem.2 fun x hx => by cases hmem x hx
  | y :: ys, xs, hs, horder, hmem => by
    obtain ⟨hy, hys⟩ := List.pairwise_cons.1 hs
    have hkey : ∀ x ∈ xs, cmp (key x) y = .eq ∨ contains cmp (key x) ys = true := by
      intro x hx
      simpa only [contains, List.any_cons, Bool.or_eq_true, beq_iff_eq] using hmem x hx
    -- what has the first key comes first
    have hfront : xs = xs.filter (fun x => cmp (key x) y == .eq) ++
        xs.filter fun x => !(cmp (key x) y == .eq) := by
      refine eq_filter_append (horder.imp_of_mem fun {a b} ha _ hab hb => ?_)
      rw [beq_iff_eq] at hb ⊢
      refine (hkey a ha).resolve_right fun hlater => hab ?_
      obtain ⟨z, hz, haz⟩ := contains_eq_true_iff.1 hlater
      rw [Std.TransCmp.congr_left haz, Std.TransCmp.congr_right hb]
      exact Std.OrientedCmp.gt_of_lt (hy z hz)
    have hmem' : ∀ x ∈ xs.filter fun x => !(cmp (key x) y == .eq),
        contains cmp (key x) ys = true := by
      intro x hx
      obtain ⟨hx, hne⟩ := List.mem_filter.1 hx
      exact (hkey x hx).resolve_left (by simpa using hne)
    have hrest := eq_flatMap_filter hys (horder.filter _) hmem'
    -- nothing with a later key is among what has the first one
    have hsame : ∀ z ∈ ys, (xs.filter fun x => !(cmp (key x) y == .eq)).filter
        (fun x => cmp (key x) z == .eq) = xs.filter fun x => cmp (key x) z == .eq := by
      intro z hz
      rw [List.filter_filter]
      refine List.filter_congr fun x _ => Bool.and_eq_left_iff_imp.2 fun hxz => ?_
      have hne : cmp (key x) y ≠ .eq := fun hxy => by
        rw [beq_iff_eq] at hxz
        have hyz := hy z hz
        rw [← Std.TransCmp.congr_left hxy, hxz] at hyz
        cases hyz
      simpa using hne
    have hlater := congrArg List.flatten (List.map_congr_left hsame)
    rw [← List.flatMap_def, ← List.flatMap_def, ← hrest] at hlater
    rw [List.flatMap_cons, ← hlater]
    exact hfront

end

end EventScripts.Ordered
