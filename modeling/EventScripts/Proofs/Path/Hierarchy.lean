import EventScripts.Proofs.Path.Key
/-!
# The hierarchy of keys

Keys follow the directories: what lies below a directory stands together in
every list that is in the order of keys, and the files of a directory come
before everything in its subdirectories. Both come down to the tags: a component
that is followed by another is tagged as such in every path, so paths below one
directory begin with the same tagged components (`rank_append`), and what stands
between two lists with a common beginning has that beginning as well
(`prefix_of_between`).

It is the order of `SPEC_FULL.md` §4.4.
-/

namespace EventScripts

/-- **Blocks.** If whatever stands between two elements with a property has the property too, those
with it stand together in every list that is in order. -/
theorem exists_block {α : Type} {le : α → α → Prop} {p : α → Prop}
    (hconvex : ∀ a b c, le a b → le b c → p a → p c → p b) : ∀ {l : List α}, l.Pairwise le →
    ∃ before block after, l = before ++ block ++ after ∧ (∀ a ∈ block, p a) ∧
      ∀ a ∈ before ++ after, ¬p a
  | [], _ => ⟨[], [], [], rfl, nofun, nofun⟩
  | x :: l, h => by
    obtain ⟨hx, hl⟩ := List.pairwise_cons.1 h
    obtain ⟨before, block, after, rfl, hblock, hothers⟩ := exists_block hconvex hl
    by_cases hp : p x
    · cases block with
      | nil => exact ⟨[], [x], before ++ after, by simp, by simpa using hp, by simpa using hothers⟩
      | cons b block =>
        -- what stands between `x` and the block would belong to it
        have hbefore : before = [] := by
          refine List.eq_nil_iff_forall_not_mem.2 fun a ha => hothers a (by simp [ha]) ?_
          have hab : le a b := by
            rw [List.append_assoc] at hl
            exact (List.pairwise_append.1 hl).2.2 a ha b (by simp)
          exact hconvex x a b (hx a (by simp [ha])) hab hp (hblock b List.mem_cons_self)
        subst hbefore
        refine ⟨[], x :: b :: block, after, rfl, fun a ha => ?_, hothers⟩
        rcases List.mem_cons.1 ha with rfl | ha
        · exact hp
        · exact hblock a ha
    · refine ⟨x :: before, block, after, rfl, hblock, fun a ha => ?_⟩
      rcases List.mem_cons.1 ha with rfl | ha
      · exact hp
      · exact hothers a ha

namespace Path

/-! ## Lists with a common beginning -/

theorem compare_append_left {α : Type} [Ord α] [Std.ReflOrd α] (front a b : List α) :
    compare (front ++ a) (front ++ b) = compare a b := by
  induction front with
  | nil => rfl
  | cons r front ih =>
    rw [List.cons_append, List.cons_append, List.compare_cons_cons, ih, Std.compare_self]
    rfl

/-- Between two lists that begin alike stand only lists that begin so, too. -/
theorem prefix_of_between {a b : List Ranked} : ∀ {front l : List Ranked},
    (compare (front ++ a) l).isLE = true → (compare l (front ++ b)).isLE = true → front <+: l
  | [], l, _, _ => List.nil_prefix
  | r :: front, [], h, _ => by
    rw [List.cons_append, List.compare_cons_nil] at h
    cases h
  | r :: front, s :: l, h, h' => by
    rw [List.cons_append, List.compare_cons_cons, Ordering.isLE_then_iff_and] at h h'
    obtain rfl : r = s := Std.compare_eq_iff_eq.1 (Std.OrientedCmp.isLE_antisymm h.1 h'.1)
    rw [Std.compare_self] at h h'
    exact List.cons_prefix_cons.2 ⟨rfl, prefix_of_between (by simpa using h) (by simpa using h')⟩

/-! ## Below a directory -/

/-- The path is one component longer than that of the directory. -/
def In (path directory : Path) : Prop := ∃ c, path.components = directory.components ++ [c]

/-- The path is longer than that of the directory by whatever many components. -/
def Below (path directory : Path) : Prop :=
  ∃ c rest, path.components = directory.components ++ c :: rest

theorem In.below {path directory : Path} (h : path.In directory) : path.Below directory :=
  h.imp fun _ hc => ⟨[], hc⟩

theorem Below.trans {path sub directory : Path} (h : path.Below sub) (hs : sub.Below directory) :
    path.Below directory := by
  obtain ⟨c, rest, hc⟩ := h
  obtain ⟨d, more, hd⟩ := hs
  exact ⟨d, more ++ c :: rest, by rw [hc, hd, List.append_assoc, List.cons_append]⟩

/-- The tag of a component in front of others. -/
def leading (cs : List Component) : List Ranked := cs.map (Ranked.mk true)

theorem rank_cons_cons (c d : Component) (rest : List Component) :
    rank (c :: d :: rest) = ⟨true, c⟩ :: rank (d :: rest) := rfl

/-- Of components that are followed by another, each is tagged as such. -/
theorem rank_append : ∀ (front : List Component) (c : Component) (rest : List Component),
    rank (front ++ c :: rest) = leading front ++ rank (c :: rest)
  | [], _, _ => rfl
  | [_], _, _ => rfl
  | f :: g :: front, c, rest => by
    have ih : rank (g :: (front ++ c :: rest)) = leading (g :: front) ++ rank (c :: rest) :=
      rank_append (g :: front) c rest
    rw [List.cons_append, List.cons_append, rank_cons_cons, ih]
    rfl

theorem exists_rank_cons (c : Component) (rest : List Component) :
    ∃ inner, rank (c :: rest) = ⟨inner, c⟩ :: rank rest := by
  cases rest with
  | nil => exact ⟨false, rfl⟩
  | cons d rest => exact ⟨true, rfl⟩

variable {a b c directory : Path}

theorem below_iff : a.Below directory ↔
    ∃ r more, rank a.components = leading directory.components ++ r :: more := by
  constructor
  · rintro ⟨c, rest, hc⟩
    obtain ⟨inner, hrank⟩ := exists_rank_cons c rest
    exact ⟨_, _, by rw [hc, rank_append, hrank]⟩
  · rintro ⟨r, more, hrank⟩
    refine ⟨r.component, more.map (·.component), ?_⟩
    have hall := congrArg (List.map Ranked.component) hrank
    rwa [map_component_rank, List.map_append, leading, List.map_map,
      show Ranked.component ∘ Ranked.mk true = id from rfl, List.map_id] at hall

/-- Below one directory, keys are compared by what is behind it. -/
theorem keyCompare_of_append {front : List Component} {c d : Component} {rest more : List Component}
    (ha : a.components = front ++ c :: rest) (hb : b.components = front ++ d :: more) :
    keyCompare a b = compare (rank (c :: rest)) (rank (d :: more)) := by
  rw [keyCompare, ha, hb, rank_append, rank_append, compare_append_left]

/-- The files of a directory come in the order of their names. -/
theorem keyCompare_of_files {front : List Component} {c d : Component}
    (ha : a.components = front ++ [c]) (hb : b.components = front ++ [d]) :
    keyCompare a b = compare c d := by
  rw [keyCompare_of_append ha hb, rank, rank, List.compare_cons_cons, List.compare_nil_nil]
  exact Ordering.then_eq

/-- Files come before what is in subdirectories. -/
theorem keyCompare_of_file {front : List Component} {c d e : Component} {more : List Component}
    (ha : a.components = front ++ [c]) (hb : b.components = front ++ d :: e :: more) :
    keyCompare a b = .lt := by
  rw [keyCompare_of_append ha hb, rank_cons_cons, rank, List.compare_cons_cons]
  rfl

/-- What is in subdirectories comes in the order of their names. -/
theorem keyCompare_of_inner {front : List Component} {c d e f : Component}
    {rest more : List Component} (ha : a.components = front ++ c :: e :: rest)
    (hb : b.components = front ++ d :: f :: more) (hlt : compare c d = .lt) :
    keyCompare a b = .lt := by
  have hlt' : compare (Ranked.mk true c) (Ranked.mk true d) = .lt := hlt
  rw [keyCompare_of_append ha hb, rank_cons_cons, rank_cons_cons, List.compare_cons_cons, hlt']
  rfl

/-- **What stands between two paths below a directory** is below it as well. -/
theorem below_of_between (hab : (keyCompare a b).isLE = true) (hbc : (keyCompare b c).isLE = true)
    (ha : a.Below directory) (hc : c.Below directory) : b.Below directory := by
  obtain ⟨r, more, hrank⟩ := below_iff.1 ha
  obtain ⟨s, others, hrank'⟩ := below_iff.1 hc
  rw [keyCompare, hrank] at hab
  rw [keyCompare, hrank'] at hbc
  obtain ⟨behind, hbehind⟩ := prefix_of_between hab hbc
  cases behind with
  | cons t behind => exact below_iff.2 ⟨t, behind, hbehind.symm⟩
  | nil =>
    -- the directory itself comes before everything below it
    rw [← hbehind, compare_append_left, List.compare_cons_nil] at hab
    cases hab

/-! ## The order -/

/-- A total order of paths up to their spelling, directory by directory. -/
structure Hierarchical (cmp : Path → Path → Ordering) : Prop where
  refl : ∀ a, cmp a a = .eq
  swap : ∀ a b, cmp b a = (cmp a b).swap
  antisymm : ∀ a b, (cmp a b).isLE = true → (cmp b a).isLE = true → cmp a b = .eq
  trans : ∀ a b c, (cmp a b).isLE = true → (cmp b c).isLE = true → (cmp a c).isLE = true
  total : ∀ a b, (cmp a b).isLE = true ∨ (cmp b a).isLE = true
  eq_iff : ∀ a b, cmp a b = .eq ↔ a.same b = true
  /-- In a list in order, what is below a directory is one block. -/
  block : ∀ (directory : Path) (paths : List Path), (paths.Pairwise fun a b => (cmp a b).isLE = true) →
    ∃ before block after, paths = before ++ block ++ after ∧ (∀ path ∈ block, path.Below directory) ∧
      ∀ path ∈ before ++ after, ¬path.Below directory
  /-- What is in a directory comes before what is in the directories below it. -/
  files_first : ∀ directory file sub path : Path, file.In directory → sub.Below directory →
    path.Below sub → cmp file path = .lt

theorem keyCompare_total (a b : Path) :
    (keyCompare a b).isLE = true ∨ (keyCompare b a).isLE = true := by
  have hswap : keyCompare b a = (keyCompare a b).swap := Std.OrientedCmp.eq_swap
  rw [hswap]
  cases keyCompare a b <;> simp

/-- **The order of keys** is total and goes directory by directory. -/
theorem hierarchical_keyCompare : Hierarchical keyCompare := by
  constructor
  case refl => exact fun a => keyCompare_eq_iff.2 rfl
  case swap => exact fun a b => Std.OrientedCmp.eq_swap
  case antisymm => exact fun a b => Std.OrientedCmp.isLE_antisymm
  case trans => exact fun a b c => Std.TransCmp.isLE_trans
  case total => exact keyCompare_total
  case eq_iff => exact fun a b => keyCompare_eq_iff.trans same_iff.symm
  case block =>
    intro directory paths h
    have hconvex : ∀ a b c : Path, (keyCompare a b).isLE = true → (keyCompare b c).isLE = true →
        a.Below directory → c.Below directory → b.Below directory :=
      fun _ _ _ hab hbc ha hc => below_of_between hab hbc ha hc
    exact exists_block hconvex h
  case files_first =>
    rintro directory file sub path ⟨c, hc⟩ ⟨d, more, hd⟩ ⟨e, rest, he⟩
    rw [hd, List.append_assoc, List.cons_append] at he
    cases more with
    | nil => exact keyCompare_of_file hc he
    | cons f more => exact keyCompare_of_file hc he

/-- A file of a directory, and what is below a directory beside it, whatever comes before what by
name. -/
example : keyCompare ⟨"s/z.sk"⟩ ⟨"s//aa/./q.sk"⟩ = .lt := by cbv

end Path

end EventScripts
