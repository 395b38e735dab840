import EventScripts.Loader.Activate
/-!
# Members in order

The members of a batch have places, which put them in one order: script by
script, and in a script in the order of the file. Priority is an order on top of
that, and sorting by it is stable. `Grouped` ties members to the scripts that
they belong to.
-/

namespace EventScripts.Member

variable {σ : Type}

/-- One member comes before another in the batch. -/
def Precedes (a b : Member σ) : Prop :=
  a.script < b.script ∨ a.script = b.script ∧ a.place < b.place

/-- One member goes before another in the first phase. -/
def Outranks [Structure σ] (a b : Member σ) : Prop :=
  Structure.priority a.self < Structure.priority b.self ∨
    Structure.priority a.self = Structure.priority b.self ∧ a.Precedes b

theorem Precedes.trans {a b c : Member σ} (hab : a.Precedes b) (hbc : b.Precedes c) :
    a.Precedes c := by
  unfold Precedes at *
  omega

theorem pairwise_zipIdx {α : Type} : ∀ (xs : List α) (n : Nat),
    (xs.zipIdx n).Pairwise fun a b => a.2 < b.2
  | [], _ => by simp
  | x :: xs, n => by
    rw [List.zipIdx_cons, List.pairwise_cons]
    refine ⟨fun b hb => ?_, pairwise_zipIdx xs (n + 1)⟩
    have := List.le_snd_of_mem_zipIdx hb
    exact this

/-- The members of a batch are listed in their order. -/
theorem pairwise_ofBatch (scripts : List (Script σ)) : (ofBatch scripts).Pairwise Precedes := by
  rw [ofBatch, List.pairwise_flatMap]
  constructor
  · rintro ⟨script, s⟩ -
    rw [List.pairwise_map]
    exact (pairwise_zipIdx script.structures 0).imp fun h => Or.inr ⟨rfl, h⟩
  · refine (pairwise_zipIdx scripts 0).imp fun {x y} h a ha b hb => ?_
    obtain ⟨_, -, rfl⟩ := List.mem_map.1 ha
    obtain ⟨_, -, rfl⟩ := List.mem_map.1 hb
    exact Or.inl h

/-! ## By priority -/

section

variable [Structure σ]

theorem byPriority_perm (ms : List (Member σ)) : (byPriority ms).Perm ms := List.mergeSort_perm _ _

theorem byPriority_sorted (ms : List (Member σ)) :
    (byPriority ms).Pairwise fun a b => Structure.priority a.self ≤ Structure.priority b.self := by
  have h : (byPriority ms).Pairwise fun a b =>
      decide (Structure.priority a.self ≤ Structure.priority b.self) = true :=
    List.pairwise_mergeSort
      (fun a b c hab hbc => by simp only [decide_eq_true_eq] at *; omega)
      (fun a b => by simp only [Bool.or_eq_true, decide_eq_true_eq]; omega) ms
  exact h.imp fun h => by simpa using h

/-- Members of one priority are left as they were. -/
theorem filter_byPriority (ms : List (Member σ)) (p : Int) :
    (byPriority ms).filter (fun m => Structure.priority m.self == p)
      = ms.filter fun m => Structure.priority m.self == p := by
  have hall : (ms.filter fun m => Structure.priority m.self == p).Pairwise fun a b =>
      decide (Structure.priority a.self ≤ Structure.priority b.self) = true :=
    List.pairwise_of_forall_mem_list fun a ha b hb => by
      simp only [List.mem_filter, beq_iff_eq] at ha hb
      simp [ha.2, hb.2]
  have hsub : (ms.filter fun m => Structure.priority m.self == p).Sublist (byPriority ms) :=
    List.sublist_mergeSort
      (fun a b c hab hbc => by simp only [decide_eq_true_eq] at *; omega)
      (fun a b => by simp only [Bool.or_eq_true, decide_eq_true_eq]; omega)
      hall List.filter_sublist
  have hfilter := hsub.filter fun m => Structure.priority m.self == p
  rw [List.filter_filter] at hfilter
  simp only [Bool.and_self] at hfilter
  exact (hfilter.eq_of_length ((byPriority_perm ms).filter _).length_eq.symm).symm

/-- **Sorting by priority keeps the order of the batch** among members of one priority. -/
theorem pairwise_byPriority {ms : List (Member σ)} (h : ms.Pairwise Precedes) :
    (byPriority ms).Pairwise Outranks := by
  rw [List.pairwise_iff_forall_sublist]
  intro a b hab
  have hle := List.pairwise_iff_forall_sublist.1 (byPriority_sorted ms) hab
  rcases Int.lt_or_eq_of_le hle with hlt | heq
  · exact Or.inl hlt
  · refine Or.inr ⟨heq, ?_⟩
    have hf := hab.filter fun m => Structure.priority m.self == Structure.priority b.self
    rw [filter_byPriority] at hf
    simp only [List.filter_cons, heq, beq_self_eq_true, if_true, List.filter_nil] at hf
    exact List.pairwise_iff_forall_sublist.1 h (hf.trans List.filter_sublist)

end

/-! ## Members and their scripts -/

/-- The members are those of scripts that are numbered from `k` on: each has its script's number
and path, and they are in order. -/
inductive Grouped : Nat → List (Script σ) → List (Member σ) → Prop where
  | nil {k : Nat} : Grouped k [] []
  | cons {k : Nat} {script : Script σ} {scripts : List (Script σ)} {own rest : List (Member σ)}
      (hown : ∀ m ∈ own, m.script = k ∧ m.path = script.path)
      (horder : own.Pairwise Precedes)
      (hself : script.structures = own.map (·.self)) (hrest : Grouped (k + 1) scripts rest) :
      Grouped k (script :: scripts) (own ++ rest)

/-- The scripts of a batch with those of the members that belong to them. -/
def group (k : Nat) (scripts : List (Script σ)) (ms : List (Member σ)) : List (Script σ) :=
  (scripts.zipIdx k).map fun (script, s) =>
    { script with structures := (ms.filter fun m => m.script == s).map (·.self) }

theorem map_path_group (scripts : List (Script σ)) (ms : List (Member σ)) :
    (group 0 scripts ms).map (·.path) = scripts.map (·.path) := by
  rw [group, List.map_map]
  conv => rhs; rw [← List.zipIdx_map_fst 0 scripts, List.map_map]
  rfl

theorem Grouped.le {k : Nat} {scripts : List (Script σ)} {ms : List (Member σ)}
    (h : Grouped k scripts ms) : ∀ m ∈ ms, k ≤ m.script := by
  induction h with
  | nil => simp
  | cons hown _ _ _ ih =>
    intro m hm
    rcases List.mem_append.1 hm with hm | hm
    · exact Nat.le_of_eq (hown m hm).1.symm
    · exact Nat.le_of_succ_le (ih m hm)

theorem Grouped.pairwise {k : Nat} {scripts : List (Script σ)} {ms : List (Member σ)}
    (h : Grouped k scripts ms) : ms.Pairwise Precedes := by
  induction h with
  | nil => simp
  | cons hown horder _ hrest ih =>
    rw [List.pairwise_append]
    refine ⟨horder, ih, fun a ha b hb => Or.inl ?_⟩
    rw [(hown a ha).1]
    exact hrest.le b hb

/-- A member is held by the script that it is grouped with. -/
theorem Grouped.mem {k : Nat} {scripts : List (Script σ)} {ms : List (Member σ)}
    (h : Grouped k scripts ms) :
    ∀ m ∈ ms, ∃ s ∈ scripts, s.path = m.path ∧ m.self ∈ s.structures := by
  induction h with
  | nil => simp
  | cons hown _ hself _ ih =>
    intro m hm
    rcases List.mem_append.1 hm with hm | hm
    · exact ⟨_, by simp, (hown m hm).2.symm, hself ▸ List.mem_map_of_mem hm⟩
    · obtain ⟨s, hs, hheld⟩ := ih m hm
      exact ⟨s, by simp [hs], hheld⟩

/-- The structures of the scripts are the members, in order. -/
theorem Grouped.flatMap_structures {k : Nat} {scripts : List (Script σ)} {ms : List (Member σ)}
    (h : Grouped k scripts ms) : scripts.flatMap (·.structures) = ms.map (·.self) := by
  induction h with
  | nil => rfl
  | cons _ _ hself _ ih => rw [List.flatMap_cons, ih, hself, List.map_append]

/-- The members of a batch are grouped by its scripts. -/
theorem grouped_ofBatch : ∀ (scripts : List (Script σ)) (k : Nat),
    Grouped k scripts ((scripts.zipIdx k).flatMap fun (script, s) =>
      script.structures.zipIdx.map fun (self, p) => ⟨s, p, script.path, self⟩)
  | [], _ => .nil
  | script :: rest, k => by
    rw [List.zipIdx_cons, List.flatMap_cons]
    refine .cons (fun m hm => ?_) ?_ ?_ (grouped_ofBatch rest (k + 1))
    · obtain ⟨_, -, rfl⟩ := List.mem_map.1 hm
      exact ⟨rfl, rfl⟩
    · rw [List.pairwise_map]
      exact (pairwise_zipIdx script.structures 0).imp fun h => Or.inr ⟨rfl, h⟩
    · rw [List.map_map]
      exact (List.zipIdx_map_fst 0 script.structures).symm

/-- Members in order make up the scripts that they are grouped by. -/
theorem Grouped.eq_group {k : Nat} {scripts : List (Script σ)} {ms : List (Member σ)}
    (h : Grouped k scripts ms) {named : List (Script σ)}
    (hp : named.map (·.path) = scripts.map (·.path)) : scripts = group k named ms := by
  induction h generalizing named with
  | nil =>
    rw [List.map_nil, List.map_eq_nil_iff] at hp
    rw [hp]
    rfl
  | @cons k script scripts own rest hown _ hself hrest ih =>
    cases named with
    | nil => simp at hp
    | cons first others =>
      obtain ⟨hpath, hp⟩ := List.cons.inj hp
      have hfirst : (own ++ rest).filter (fun m => m.script == k) = own := by
        rw [List.filter_append, List.filter_eq_self.2, List.filter_eq_nil_iff.2, List.append_nil]
        · intro m hm
          have := hrest.le m hm
          simp only [beq_iff_eq]
          omega
        · intro m hm
          simp [(hown m hm).1]
      have hothers : ∀ s, k < s → (own ++ rest).filter (fun m => m.script == s)
          = rest.filter fun m => m.script == s := by
        intro s hs
        rw [List.filter_append, List.filter_eq_nil_iff.2 fun m hm => ?_, List.nil_append]
        simp only [(hown m hm).1, beq_iff_eq]
        omega
      simp only [group, List.zipIdx_cons, List.map_cons]
      congr 1
      · rw [hfirst, ← hself]
        cases script
        cases first
        simp only at hpath
        simp [hpath]
      · rw [ih hp, group]
        refine List.map_congr_left fun x hx => ?_
        rw [hothers x.2 (List.le_snd_of_mem_zipIdx hx)]

/-! ## Putting members back into their scripts -/

/-- The place of a member in the batch. -/
def slot (m : Member σ) : Nat × Nat := (m.script, m.place)

theorem nodup_slots {ms : List (Member σ)} (h : ms.Pairwise Precedes) : (ms.map slot).Nodup := by
  rw [List.Nodup, List.pairwise_map]
  refine h.imp fun {a b} hab heq => ?_
  obtain ⟨hs, hp⟩ := Prod.mk.inj heq
  unfold Precedes at hab
  omega

/-- The members of one script, in order. -/
def own (ms : List (Member σ)) (s : Nat) : List (Member σ) :=
  (ms.filter fun m => m.script == s).mergeSort fun a b => a.place ≤ b.place

/-- The members of scripts that are numbered from `k` on, in order. -/
def arranged (k : Nat) (scripts : List (Script σ)) (ms : List (Member σ)) : List (Member σ) :=
  (scripts.zipIdx k).flatMap fun script => own ms script.2

theorem own_perm (ms : List (Member σ)) (s : Nat) :
    (own ms s).Perm (ms.filter fun m => m.script == s) := List.mergeSort_perm _ _

theorem script_of_mem_own {ms : List (Member σ)} {s : Nat} {m : Member σ} (h : m ∈ own ms s) :
    m ∈ ms ∧ m.script = s := by
  simpa using (own_perm ms s).mem_iff.1 h

theorem pairwise_own {ms : List (Member σ)} (h : (ms.map slot).Nodup) (s : Nat) :
    (own ms s).Pairwise Precedes := by
  have hle : (own ms s).Pairwise fun a b => a.place ≤ b.place := by
    have h : (own ms s).Pairwise fun a b => decide (a.place ≤ b.place) = true :=
      List.pairwise_mergeSort
        (fun a b c hab hbc => by simp only [decide_eq_true_eq] at *; omega)
        (fun a b => by simp only [Bool.or_eq_true, decide_eq_true_eq]; omega)
        (ms.filter fun m => m.script == s)
    exact h.imp fun h => by simpa using h
  have hne : (own ms s).Pairwise fun a b => a.slot ≠ b.slot := by
    have hd : ((own ms s).map slot).Nodup :=
      ((own_perm ms s).map slot).nodup_iff.2 (h.sublist (List.filter_sublist.map slot))
    rwa [List.Nodup, List.pairwise_map] at hd
  refine (hle.and hne).imp_of_mem fun {a b} ha hb hab => Or.inr ?_
  have hsa := (script_of_mem_own ha).2
  have hsb := (script_of_mem_own hb).2
  have hp : a.place ≠ b.place := fun hp => hab.2 (Prod.ext (hsa.trans hsb.symm) hp)
  exact ⟨hsa.trans hsb.symm, Nat.lt_of_le_of_ne hab.1 hp⟩

/-- Nothing is lost or added when members are put in order. -/
theorem arranged_perm (ms : List (Member σ)) : ∀ (scripts : List (Script σ)) (k : Nat),
    (∀ m ∈ ms, m.script < k + scripts.length) →
      (arranged k scripts ms).Perm (ms.filter fun m => decide (k ≤ m.script))
  | [], k, h => by
    rw [List.filter_eq_nil_iff.2 fun m hm => by simpa using h m hm]
    exact List.Perm.refl _
  | script :: rest, k, h => by
    have hrest := arranged_perm ms rest (k + 1) fun m hm => by
      have := h m hm
      rw [List.length_cons] at this
      omega
    have hsplit := List.filter_append_perm (fun m => m.script == k)
      (ms.filter fun m => decide (k ≤ m.script))
    simp only [List.filter_filter] at hsplit
    have hfirst : (ms.filter fun m => m.script == k && decide (k ≤ m.script))
        = ms.filter fun m => m.script == k :=
      List.filter_congr fun m _ => by
        rw [Bool.eq_iff_iff]
        simp only [Bool.and_eq_true, beq_iff_eq, decide_eq_true_eq]
        omega
    have hlater : (ms.filter fun m => !(m.script == k) && decide (k ≤ m.script))
        = ms.filter fun m => decide (k + 1 ≤ m.script) :=
      List.filter_congr fun m _ => by
        rw [Bool.eq_iff_iff]
        simp only [Bool.and_eq_true, Bool.not_eq_true', beq_eq_false_iff_ne, decide_eq_true_eq]
        omega
    rw [hfirst, hlater] at hsplit
    exact ((own_perm ms k).append hrest).trans hsplit

/-- The members that are put back into their scripts are grouped by them. -/
theorem grouped_arranged {ms : List (Member σ)} (h : (ms.map slot).Nodup) :
    ∀ (scripts : List (Script σ)) (k : Nat),
      (∀ m ∈ ms, ∀ i script, scripts[i]? = some script → m.script = k + i →
        m.path = script.path) →
      Grouped k ((scripts.zipIdx k).map fun (script, s) =>
        { script with structures := (own ms s).map (·.self) }) (arranged k scripts ms)
  | [], _, _ => .nil
  | script :: rest, k, hp => by
    refine .cons (fun m hm => ?_) (pairwise_own h k) rfl ?_
    · obtain ⟨hmem, hs⟩ := script_of_mem_own hm
      exact ⟨hs, hp m hmem 0 script rfl hs⟩
    · refine grouped_arranged h rest (k + 1) fun m hm i script hi hs => ?_
      exact hp m hm (i + 1) script hi (by omega)

/-- A member has the number and the path of one of the scripts. -/
def BelongsTo (scripts : List (Script σ)) (m : Member σ) : Prop :=
  ∃ script, scripts[m.script]? = some script ∧ m.path = script.path

theorem belongsTo_of_mem_ofBatch {scripts : List (Script σ)} {m : Member σ}
    (h : m ∈ ofBatch scripts) : m.BelongsTo scripts := by
  obtain ⟨⟨script, s⟩, hs, hm⟩ := List.mem_flatMap.1 h
  obtain ⟨_, -, rfl⟩ := List.mem_map.1 hm
  exact ⟨script, List.mk_mem_zipIdx_iff_getElem?.1 hs, rfl⟩

end EventScripts.Member
