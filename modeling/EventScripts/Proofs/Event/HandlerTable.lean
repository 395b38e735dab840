import EventScripts.Event.Catalog
import Mathlib.Data.List.Induction
import Mathlib.Data.List.Nodup
import Mathlib.Logic.Relation
/-!
# The table of handler lists

A list of declarations is read into a table one by one, and a kind takes the list of
its parent over when it is declared. Who asks for the ancestors of a kind, on the
other hand, walks through the table from parent to parent. `build_tabulated` says that the
two describe one and the same forest, that of the declarations: which lists of
declarations are accepted and what is wrong with the others, that a kind is
delivered through the list of the nearest owner among itself and its ancestors,
how the lists are numbered, and that the walk ends and finds the ancestors.

The invariant is `Tabulates`, kept by every declaration that is entered; the walk
ends because a parent stands further down in the table (`Grounded`).

This is what `SPEC_FULL.md` §10.6 (EventCatalog) says of aliasing and of lookups, and
§10.3 of errors.
-/

namespace EventScripts.Catalog

/-! ## What is declared -/

/-- A kind has been declared with a parent. -/
def Parent (decls : List KindDecl) (kind parent : Kind) : Prop :=
  ∃ decl ∈ decls, decl.kind = kind ∧ decl.parent = some parent

/-- The kinds that own a list, in the order of their declarations. -/
def owners (decls : List KindDecl) : List Kind := (decls.filter (·.ownsList)).map (·.kind)

/-- The nearest among a kind and its ancestors that owns a list. -/
inductive NearestOwner (decls : List KindDecl) : Kind → Kind → Prop
  | own {decl : KindDecl} (hdecl : decl ∈ decls) (howns : decl.ownsList = true) :
    NearestOwner decls decl.kind decl.kind
  | further {decl : KindDecl} {parent owner : Kind} (hdecl : decl ∈ decls)
    (howns : decl.ownsList = false) (hparent : decl.parent = some parent)
    (hnearest : NearestOwner decls parent owner) : NearestOwner decls decl.kind owner

/-- No kind is declared twice, every parent is declared earlier, and every kind owns a list or has a
parent. -/
structure Admissible (decls : List KindDecl) : Prop where
  once : (decls.map (·.kind)).Nodup
  parents : ∀ before decl after, decls = before ++ decl :: after →
    ∀ parent ∈ decl.parent, parent ∈ before.map (·.kind)
  lists : ∀ decl ∈ decls, decl.ownsList = true ∨ ∃ parent, decl.parent = some parent

/-- What is wrong with a declaration behind others. -/
inductive Refused (before : List KindDecl) (decl : KindDecl) : CatalogError → Prop
  | duplicate (hkind : decl.kind ∈ before.map (·.kind)) :
    Refused before decl (.duplicate decl.kind)
  | unknownParent {parent : Kind} (hkind : decl.kind ∉ before.map (·.kind))
    (hparent : decl.parent = some parent) (hunknown : parent ∉ before.map (·.kind)) :
    Refused before decl (.unknownParent decl.kind parent)
  | noHandlerList (hkind : decl.kind ∉ before.map (·.kind)) (hparent : decl.parent = none)
    (howns : decl.ownsList = false) : Refused before decl (.noHandlerList decl.kind)

/-- One thing at most is said of a declaration. -/
theorem Refused.eq {before : List KindDecl} {decl : KindDecl} {e other : CatalogError}
    (h : Refused before decl e) (hother : Refused before decl other) : e = other := by
  cases h with
  | duplicate hkind =>
    cases hother with
    | duplicate => rfl
    | unknownParent hfresh | noHandlerList hfresh => exact absurd hkind hfresh
  | unknownParent hfresh hparent =>
    cases hother with
    | duplicate hkind => exact absurd hkind hfresh
    | unknownParent _ hsame => rw [Option.some.inj (hparent.symm.trans hsame)]
    | noHandlerList _ hnone => cases hparent.symm.trans hnone
  | noHandlerList hfresh hnone =>
    cases hother with
    | duplicate hkind => exact absurd hkind hfresh
    | unknownParent _ hparent => cases hparent.symm.trans hnone
    | noHandlerList => rfl

/-- Nothing is wrong with a declaration behind others. -/
structure Fitting (before : List KindDecl) (decl : KindDecl) : Prop where
  kind : decl.kind ∉ before.map (·.kind)
  parent : ∀ parent ∈ decl.parent, parent ∈ before.map (·.kind)
  list : decl.ownsList = true ∨ ∃ parent, decl.parent = some parent

variable {decls before : List KindDecl} {decl : KindDecl} {catalog : Catalog}
  {kind parent above owner : Kind} {list count n : Nat}

theorem owners_concat (before : List KindDecl) (decl : KindDecl) :
    owners (before ++ [decl]) = owners before ++ if decl.ownsList then [decl.kind] else [] := by
  rw [owners, List.filter_append, List.map_append, owners]
  cases howns : decl.ownsList <;> simp [howns]

theorem mem_owners : kind ∈ owners decls ↔
    ∃ decl ∈ decls, decl.ownsList = true ∧ decl.kind = kind := by
  simp only [owners, List.mem_map, List.mem_filter, and_assoc]

theorem not_fitting_of_refused {e : CatalogError} (h : Refused before decl e) :
    ¬Fitting before decl := by
  intro hf
  cases h with
  | duplicate hkind => exact hf.kind hkind
  | unknownParent _ hparent hunknown => exact hunknown (hf.parent _ hparent)
  | noHandlerList _ hparent howns =>
    rcases hf.list with hlist | ⟨parent, hlist⟩
    · cases howns.symm.trans hlist
    · cases hparent.symm.trans hlist

theorem admissible_nil : Admissible [] := by
  refine ⟨List.nodup_nil, fun before decl after h => ?_, nofun⟩
  cases before <;> cases h

/-- Declarations are admissible if each fits behind those before it. -/
theorem admissible_concat :
    Admissible (before ++ [decl]) ↔ Admissible before ∧ Fitting before decl := by
  constructor
  · intro h
    have hkinds := h.once
    rw [List.map_append, List.map_singleton, ← List.concat_eq_append, List.nodup_concat] at hkinds
    refine ⟨⟨hkinds.2, fun front d after hsplit => ?_, fun d hd => h.lists d (by simp [hd])⟩,
      hkinds.1, h.parents before decl [] rfl, h.lists decl (by simp)⟩
    exact h.parents front d (after ++ [decl]) (by rw [hsplit, List.append_assoc]; rfl)
  · rintro ⟨h, hf⟩
    constructor
    case once =>
      rw [List.map_append, List.map_singleton, ← List.concat_eq_append, List.nodup_concat]
      exact ⟨hf.kind, h.once⟩
    case parents =>
      intro front d after hsplit
      rcases List.eq_nil_or_concat' after with rfl | ⟨middle, last, rfl⟩
      · obtain ⟨rfl, hlast⟩ := List.append_inj' hsplit rfl
        obtain rfl := List.singleton_inj.1 hlast
        exact hf.parent
      · rw [← List.cons_append, ← List.append_assoc] at hsplit
        exact h.parents front d middle (List.append_inj' hsplit rfl).1
    case lists =>
      exact List.forall_mem_append.2 ⟨h.lists, List.forall_mem_singleton.2 hf.list⟩

/-! ## The walk through the table -/

/-- Every kind stands once in the table, and its parent further down. -/
def Grounded : List (Kind × KindInfo) → Prop
  | [] => True
  | (kind, info) :: older => older.lookup kind = none ∧
    (∀ parent ∈ info.parent, (older.lookup parent).isSome) ∧ Grounded older

/-- The parent that the table has for a kind. -/
def parent? (catalog : Catalog) (kind : Kind) : Option Kind := (catalog.info? kind).bind (·.parent)

theorem lookup_cons_ne {info : KindInfo} {older : List (Kind × KindInfo)} (h : parent ≠ kind) :
    ((kind, info) :: older).lookup parent = older.lookup parent := by
  rw [List.lookup_cons, beq_false_of_ne h]

theorem Grounded.isSome_parent : ∀ {entries : List (Kind × KindInfo)}, Grounded entries →
    ∀ {kind : Kind} {info : KindInfo}, entries.lookup kind = some info →
      ∀ parent ∈ info.parent, (entries.lookup parent).isSome
  | [], _, _, _, hlookup, _, _ => by cases hlookup
  | (k, i) :: older, ⟨hfresh, hparent, holder⟩, kind, info, hlookup, parent, hp => by
    have hbelow : (older.lookup parent).isSome := by
      by_cases hk : kind = k
      · subst hk
        rw [List.lookup_cons_self] at hlookup
        cases hlookup
        exact hparent parent hp
      · rw [lookup_cons_ne hk] at hlookup
        exact holder.isSome_parent hlookup parent hp
    have hne : parent ≠ k := by
      rintro rfl
      rw [hfresh] at hbelow
      cases hbelow
    rwa [lookup_cons_ne hne]

/-- **The recursion on the table is the walk** from parent to parent. -/
theorem Grounded.lineage_eq : ∀ {entries : List (Kind × KindInfo)}, Grounded entries →
    ∀ kind : Kind, lineage entries kind
      = kind :: match (entries.lookup kind).bind (·.parent) with
        | none => []
        | some parent => lineage entries parent
  | [], _, kind => rfl
  | (k, info) :: older, ⟨hfresh, hparent, holder⟩, kind => by
    have hskip : ∀ p, (older.lookup p).isSome →
        lineage ((k, info) :: older) p = lineage older p := by
      intro p hp
      have hne : k ≠ p := by
        rintro rfl
        rw [hfresh] at hp
        cases hp
      rw [lineage, if_neg hne]
    by_cases hk : k = kind
    · subst hk
      rw [lineage, if_pos rfl, List.lookup_cons_self, Option.bind_some]
      cases hp : info.parent with
      | none => rfl
      | some parent => simp only [hskip parent (hparent parent hp)]
    · rw [lineage, if_neg hk, lookup_cons_ne (Ne.symm hk), holder.lineage_eq kind]
      cases hlookup : older.lookup kind with
      | none => rfl
      | some i =>
        cases hp : i.parent with
        | none => simp only [Option.bind_some, hp]
        | some parent =>
          simp only [Option.bind_some, hp, hskip parent (holder.isSome_parent hlookup parent hp)]

/-- A kind is another one if it is the same, or its parent is. -/
theorem Grounded.isA_iff (h : Grounded catalog.entries) : catalog.isA kind above = true ↔
    kind = above ∨ ∃ parent, catalog.parent? kind = some parent ∧
      catalog.isA parent above = true := by
  rw [isA, List.contains_iff_mem, h.lineage_eq kind, List.mem_cons, eq_comm, parent?, info?]
  refine or_congr_right ?_
  cases (catalog.entries.lookup kind).bind (·.parent) with
  | none => simp
  | some parent => simp [isA]

theorem Grounded.length_lt (h : Grounded catalog.entries)
    (hp : catalog.parent? kind = some parent) :
    (lineage catalog.entries parent).length < (lineage catalog.entries kind).length := by
  rw [parent?, info?] at hp
  rw [h.lineage_eq kind, hp]
  exact Nat.lt_succ_self _

/-! ## One declaration -/

/-- The catalog knows what has been declared. -/
structure Tabulates (decls : List KindDecl) (catalog : Catalog) : Prop where
  grounded : Grounded catalog.entries
  contains_iff : ∀ kind, catalog.contains kind = true ↔ kind ∈ decls.map (·.kind)
  entry : ∀ decl ∈ decls, catalog.parent? decl.kind = decl.parent
  owned : ∀ n kind, (owners decls)[n]? = some kind → catalog.list? kind = some n
  inherited : ∀ decl ∈ decls, decl.ownsList = false → ∃ parent, decl.parent = some parent ∧
    catalog.contains parent = true ∧ catalog.list? decl.kind = catalog.list? parent
  count : catalog.listCount = (owners decls).length

/-- Which list a declaration is delivered through, and how many lists there are then. -/
inductive Assigned (catalog : Catalog) (decl : KindDecl) : Nat → Nat → Prop
  | own (howns : decl.ownsList = true) :
    Assigned catalog decl catalog.listCount (catalog.listCount + 1)
  | shared {parent : Kind} {list : Nat} (howns : decl.ownsList = false)
    (hparent : decl.parent = some parent) (hlist : catalog.list? parent = some list) :
    Assigned catalog decl list catalog.listCount

theorem contains_of_list? (h : catalog.list? kind = some list) : catalog.contains kind = true := by
  rw [← isSome_list?, h]
  rfl

/-- What becomes of a declaration: it is refused for what is wrong with it, or entered with a list
of its own or with that of its parent. -/
theorem declare_cases (h : ∀ kind, catalog.contains kind = true ↔ kind ∈ before.map (·.kind))
    (decl : KindDecl) :
    (∃ e, catalog.declare decl = .error e ∧ Refused before decl e) ∨
    ∃ list count, catalog.declare decl = .ok (catalog.enter decl list count) ∧
      Fitting before decl ∧ Assigned catalog decl list count := by
  unfold declare
  by_cases hkind : catalog.contains decl.kind = true
  · rw [if_pos hkind]
    exact .inl ⟨_, rfl, .duplicate ((h _).1 hkind)⟩
  rw [if_neg hkind]
  have hfresh : decl.kind ∉ before.map (·.kind) := fun hmem => hkind ((h _).2 hmem)
  unfold inherited
  cases hparent : decl.parent with
  | none =>
    cases howns : decl.ownsList with
    | true =>
      refine .inr ⟨_, _, rfl, ⟨hfresh, ?_, .inl howns⟩, .own howns⟩
      rw [hparent]
      nofun
    | false => exact .inl ⟨_, rfl, .noHandlerList hfresh hparent howns⟩
  | some parent =>
    simp only
    cases hlist : catalog.list? parent with
    | none =>
      refine .inl ⟨_, rfl, .unknownParent hfresh hparent fun hmem => ?_⟩
      have hknown := (h parent).2 hmem
      rw [← isSome_list?, hlist] at hknown
      cases hknown
    | some list =>
      have hfitting : Fitting before decl := by
        refine ⟨hfresh, fun p hp => (h p).1 ?_, .inr ⟨parent, hparent⟩⟩
        rw [hparent, Option.mem_some_iff] at hp
        rw [← hp]
        exact contains_of_list? hlist
      cases howns : decl.ownsList with
      | true => exact .inr ⟨_, _, rfl, hfitting, .own howns⟩
      | false => exact .inr ⟨_, _, rfl, hfitting, .shared howns hparent hlist⟩

section

variable (catalog : Catalog) (decl : KindDecl) (list count : Nat)

theorem info?_enter (kind : Kind) :
    (catalog.enter decl list count).info? kind = if kind = decl.kind
      then some ⟨decl.parent, list, decl.listensBlocked⟩ else catalog.info? kind := by
  rw [info?, enter]
  split
  · next h => rw [h, List.lookup_cons_self]
  · next h => rw [lookup_cons_ne h, info?]

theorem contains_enter : (catalog.enter decl list count).contains kind = true ↔
    catalog.contains kind = true ∨ kind = decl.kind := by
  rw [contains, info?_enter]
  split
  · next hk => simp [hk]
  · next hk => simp [hk, contains]

theorem list?_enter_self : (catalog.enter decl list count).list? decl.kind = some list := by
  rw [list?, info?_enter, if_pos rfl]
  rfl

theorem parent?_enter_self : (catalog.enter decl list count).parent? decl.kind = decl.parent := by
  rw [parent?, info?_enter, if_pos rfl]
  rfl

end

section

variable (hfresh : catalog.contains decl.kind = false)

include hfresh

theorem info?_enter_of_contains (list count : Nat) (h : catalog.contains kind = true) :
    (catalog.enter decl list count).info? kind = catalog.info? kind := by
  rw [info?_enter, if_neg]
  rintro rfl
  cases hfresh.symm.trans h

theorem list?_enter_of_contains (list count : Nat) (h : catalog.contains kind = true) :
    (catalog.enter decl list count).list? kind = catalog.list? kind := by
  rw [list?, list?, info?_enter_of_contains hfresh list count h]

theorem parent?_enter_of_contains (list count : Nat) (h : catalog.contains kind = true) :
    (catalog.enter decl list count).parent? kind = catalog.parent? kind := by
  rw [parent?, parent?, info?_enter_of_contains hfresh list count h]

end

/-- **What is known stays known** when a declaration is entered that fits. -/
theorem Tabulates.enter (h : Tabulates before catalog) (hf : Fitting before decl)
    (hassigned : Assigned catalog decl list count) :
    Tabulates (before ++ [decl]) (catalog.enter decl list count) := by
  have hfresh : catalog.contains decl.kind = false := by
    rw [← Bool.not_eq_true, h.contains_iff]
    exact hf.kind
  have hknown : ∀ d ∈ before, catalog.contains d.kind = true := fun d hd =>
    (h.contains_iff _).2 (List.mem_map_of_mem hd)
  constructor
  case grounded =>
    refine ⟨?_, fun parent hp => (h.contains_iff parent).2 (hf.parent parent hp), h.grounded⟩
    rwa [contains, info?, Option.isSome_eq_false_iff, Option.isNone_iff_eq_none] at hfresh
  case contains_iff =>
    intro k
    rw [contains_enter, h.contains_iff k, List.map_append, List.mem_append, List.map_singleton,
      List.mem_singleton]
  case entry =>
    refine List.forall_mem_append.2 ⟨fun d hd => ?_, List.forall_mem_singleton.2 ?_⟩
    · rw [parent?_enter_of_contains hfresh _ _ (hknown d hd)]
      exact h.entry d hd
    · exact parent?_enter_self ..
  case owned =>
    intro m k hm
    rw [owners_concat, List.getElem?_append] at hm
    split at hm
    · have hk := h.owned m k hm
      rw [list?_enter_of_contains hfresh _ _ (contains_of_list? hk), hk]
    · cases hassigned with
      | own howns =>
        rw [howns, if_pos rfl] at hm
        obtain ⟨hzero, hk⟩ := List.getElem?_eq_some_iff.1 hm
        rw [List.getElem_singleton] at hk
        rw [List.length_singleton] at hzero
        have hm : (owners before).length = m := by omega
        rw [← hk, list?_enter_self, h.count, hm]
      | shared howns => simp [howns] at hm
  case inherited =>
    refine List.forall_mem_append.2 ⟨fun d hd howns => ?_, List.forall_mem_singleton.2
      fun howns => ?_⟩
    · obtain ⟨parent, hparent, hp, hsame⟩ := h.inherited d hd howns
      refine ⟨parent, hparent, (contains_enter ..).2 (.inl hp), ?_⟩
      rw [list?_enter_of_contains hfresh _ _ (hknown d hd),
        list?_enter_of_contains hfresh _ _ hp, hsame]
    · cases hassigned with
      | own hown => cases howns.symm.trans hown
      | @shared parent _ _ hparent hlist =>
        have hp := contains_of_list? hlist
        refine ⟨parent, hparent, (contains_enter ..).2 (.inl hp), ?_⟩
        rw [list?_enter_of_contains hfresh _ _ hp, hlist, list?_enter_self]
  case count =>
    rw [owners_concat, List.length_append, ← h.count]
    cases hassigned with
    | own howns =>
      rw [howns]
      rfl
    | shared howns =>
      rw [howns]
      rfl

/-! ## All declarations -/

theorem build_concat (before : List KindDecl) (decl : KindDecl) :
    build (before ++ [decl]) = build before >>= (·.declare decl) := by
  rw [build, List.foldlM_append]
  simp only [List.foldlM_cons, List.foldlM_nil, bind_pure]
  rfl

theorem tabulates_nil : Tabulates [] {} :=
  ⟨trivial, fun _ => ⟨nofun, nofun⟩, nofun, nofun, nofun, rfl⟩

/-- **Reading declarations in turn** comes to a table of them all, or to what is wrong with the
first that does not fit. The induction is from the end: what is before has been read. -/
theorem build_cases (decls : List KindDecl) :
    (∃ catalog, build decls = .ok catalog ∧ Admissible decls ∧ Tabulates decls catalog) ∨
    ∃ e, build decls = .error e ∧ ∃ before decl after, decls = before ++ decl :: after ∧
      Admissible before ∧ Refused before decl e := by
  induction decls using List.reverseRecOn with
  | nil => exact .inl ⟨{}, rfl, admissible_nil, tabulates_nil⟩
  | append_singleton decls decl ih =>
    rw [build_concat]
    rcases ih with ⟨catalog, hbuild, hadmissible, h⟩ | ⟨e, hbuild, before, d, after, rfl, hfirst⟩
    · rw [hbuild]
      rcases declare_cases h.contains_iff decl with
        ⟨e, hdeclare, hrefused⟩ | ⟨list, count, hdeclare, hf, hassigned⟩
      · exact .inr ⟨e, hdeclare, decls, decl, [], rfl, hadmissible, hrefused⟩
      · exact .inl ⟨_, hdeclare, admissible_concat.2 ⟨hadmissible, hf⟩, h.enter hf hassigned⟩
    · rw [hbuild]
      refine .inr ⟨e, rfl, before, d, after ++ [decl], ?_, hfirst⟩
      rw [List.append_assoc, List.cons_append]

theorem Admissible.of_append {after : List KindDecl} (h : Admissible (before ++ after)) :
    Admissible before := by
  refine ⟨?_, fun front decl rest hsplit => h.parents front decl (rest ++ after) ?_,
    fun decl hdecl => h.lists decl (List.mem_append_left _ hdecl)⟩
  · have honce := h.once
    rw [List.map_append] at honce
    exact honce.of_append_left
  · rw [hsplit, List.append_assoc, List.cons_append]

/-- Each of the declarations fits behind those before it. -/
theorem Admissible.fitting {after : List KindDecl} (h : Admissible (before ++ decl :: after)) :
    Fitting before decl := by
  have hfront : Admissible ((before ++ [decl]) ++ after) := by
    rwa [List.append_assoc, List.singleton_append]
  exact (admissible_concat.1 hfront.of_append).2

/-- Admissible declarations are read. -/
theorem Admissible.exists_build (h : Admissible decls) :
    ∃ catalog, build decls = .ok catalog ∧ Tabulates decls catalog := by
  rcases build_cases decls with
    ⟨catalog, hbuild, -, htable⟩ | ⟨e, -, before, decl, after, rfl, -, hrefused⟩
  · exact ⟨catalog, hbuild, htable⟩
  · exact absurd h.fitting (not_fitting_of_refused hrefused)

theorem tabulates_of_build (h : build decls = .ok catalog) :
    Admissible decls ∧ Tabulates decls catalog := by
  rcases build_cases decls with ⟨other, hbuild, hadmissible, htable⟩ | ⟨e, hbuild, -⟩
  · cases h.symm.trans hbuild
    exact ⟨hadmissible, htable⟩
  · cases h.symm.trans hbuild

/-- The first declaration that does not fit decides. -/
theorem build_of_refused {e : CatalogError} (after : List KindDecl) (h : Admissible before)
    (hr : Refused before decl e) : build (before ++ decl :: after) = .error e := by
  obtain ⟨catalog, hbuild, htable⟩ := h.exists_build
  have hdeclare : catalog.declare decl = .error e := by
    rcases declare_cases htable.contains_iff decl with ⟨other, hdeclare, hother⟩ | ⟨_, _, -, hf, -⟩
    · rw [hdeclare, hr.eq hother]
    · exact absurd hf (not_fitting_of_refused hr)
  have hfirst : build (before ++ [decl]) = .error e := by
    rw [build_concat, hbuild]
    exact hdeclare
  rw [build] at hfirst ⊢
  rw [← List.singleton_append, ← List.append_assoc, List.foldlM_append, hfirst]
  rfl

/-! ## Owners and ancestors -/

theorem Tabulates.parent?_eq (h : Tabulates decls catalog) :
    catalog.parent? kind = some parent ↔ Parent decls kind parent := by
  constructor
  · intro hp
    have hknown : catalog.contains kind = true := by
      obtain ⟨info, hinfo, -⟩ := Option.bind_eq_some_iff.1 hp
      rw [contains, hinfo]
      rfl
    obtain ⟨decl, hdecl, rfl⟩ := List.mem_map.1 ((h.contains_iff kind).1 hknown)
    exact ⟨decl, hdecl, rfl, (h.entry decl hdecl).symm.trans hp⟩
  · rintro ⟨decl, hdecl, rfl, hp⟩
    exact (h.entry decl hdecl).trans hp

/-- **The walk ends**: going from a kind to its parent, what is left of the walk gets shorter. -/
theorem Tabulates.wellFounded (h : Tabulates decls catalog) :
    WellFounded fun parent kind => Parent decls kind parent :=
  Subrelation.wf (fun hp => h.grounded.length_lt (h.parent?_eq.2 hp))
    (measure fun kind => (lineage catalog.entries kind).length).wf

/-- **The walk finds the ancestors**, by induction on the walk. -/
theorem Tabulates.isA_iff (h : Tabulates decls catalog) (kind above : Kind) :
    catalog.isA kind above = true ↔ Relation.ReflTransGen (Parent decls) kind above := by
  induction kind using h.wellFounded.induction with
  | _ kind ih =>
    rw [h.grounded.isA_iff, Relation.ReflTransGen.cases_head_iff]
    refine or_congr_right (exists_congr fun parent => ?_)
    rw [h.parent?_eq]
    exact and_congr_right fun hp => ih parent hp

theorem Tabulates.length_lt (h : Tabulates decls catalog)
    (hr : Relation.ReflTransGen (Parent decls) kind above) : kind = above ∨
      (lineage catalog.entries above).length < (lineage catalog.entries kind).length := by
  induction hr with
  | refl => exact .inl rfl
  | @tail middle above _ hp ih =>
    have hlt := h.grounded.length_lt (h.parent?_eq.2 hp)
    rcases ih with rfl | hlonger
    · exact .inr hlt
    · exact .inr (Nat.lt_trans hlt hlonger)

/-- No two kinds are ancestors of each other. -/
theorem Tabulates.antisymm (h : Tabulates decls catalog)
    (hr : Relation.ReflTransGen (Parent decls) kind above)
    (hback : Relation.ReflTransGen (Parent decls) above kind) : kind = above := by
  rcases h.length_lt hr with heq | hlt
  · exact heq
  · rcases h.length_lt hback with heq | hlonger
    · exact heq.symm
    · exact absurd hlonger (Nat.lt_asymm hlt)

/-- A kind is delivered through the list of the owner nearest to it. -/
theorem Tabulates.list?_of_nearest (h : Tabulates decls catalog)
    (hnear : NearestOwner decls kind owner) :
    owner ∈ owners decls ∧ catalog.list? kind = catalog.list? owner := by
  induction hnear with
  | own hdecl howns => exact ⟨mem_owners.2 ⟨_, hdecl, howns, rfl⟩, rfl⟩
  | further hdecl howns hparent _ ih =>
    obtain ⟨parent, hsame, -, hlist⟩ := h.inherited _ hdecl howns
    cases hparent.symm.trans hsame
    exact ⟨ih.1, hlist.trans ih.2⟩

/-- Every declared kind has an owner nearest to it, by induction on the walk. -/
theorem Tabulates.exists_nearest (h : Tabulates decls catalog) (kind : Kind)
    (hkind : kind ∈ decls.map (·.kind)) : ∃ owner, NearestOwner decls kind owner := by
  induction kind using h.wellFounded.induction with
  | _ kind ih =>
    obtain ⟨decl, hdecl, rfl⟩ := List.mem_map.1 hkind
    cases howns : decl.ownsList with
    | true => exact ⟨_, .own hdecl howns⟩
    | false =>
      obtain ⟨parent, hparent, hknown, -⟩ := h.inherited decl hdecl howns
      obtain ⟨owner, hnear⟩ :=
        ih parent ⟨decl, hdecl, rfl, hparent⟩ ((h.contains_iff parent).1 hknown)
      exact ⟨owner, .further hdecl howns hparent hnear⟩

/-- **The number of a list is the place of its owner** among the owners. -/
theorem Tabulates.list?_eq_some (h : Tabulates decls catalog) (kind : Kind) (n : Nat) :
    catalog.list? kind = some n ↔
      ∃ owner, NearestOwner decls kind owner ∧ (owners decls)[n]? = some owner := by
  constructor
  · intro hlist
    obtain ⟨owner, hnear⟩ :=
      h.exists_nearest kind ((h.contains_iff kind).1 (contains_of_list? hlist))
    obtain ⟨hmem, hsame⟩ := h.list?_of_nearest hnear
    obtain ⟨m, hm⟩ := List.mem_iff_getElem?.1 hmem
    have hown := h.owned m owner hm
    rw [← hsame, hlist] at hown
    cases hown
    exact ⟨owner, hnear, hm⟩
  · rintro ⟨owner, hnear, hn⟩
    rw [(h.list?_of_nearest hnear).2]
    exact h.owned n owner hn

/-- Kinds share a list exactly if the same owner is nearest to them. -/
theorem Tabulates.list?_eq_list? (h : Tabulates decls catalog) {other owner' : Kind}
    (hnear : NearestOwner decls kind owner) (hnear' : NearestOwner decls other owner') :
    catalog.list? kind = catalog.list? other ↔ owner = owner' := by
  obtain ⟨hmem, hlist⟩ := h.list?_of_nearest hnear
  obtain ⟨hmem', hlist'⟩ := h.list?_of_nearest hnear'
  obtain ⟨n, hn⟩ := List.mem_iff_getElem?.1 hmem
  obtain ⟨m, hm⟩ := List.mem_iff_getElem?.1 hmem'
  rw [hlist, hlist', h.owned n owner hn, h.owned m owner' hm]
  constructor
  · intro hsame
    cases hsame
    exact Option.some.inj (hn.symm.trans hm)
  · rintro rfl
    rw [← h.owned n owner hn, ← h.owned m owner hm]

/-! ## The table -/

/-- How the kinds of some declarations are delivered. -/
structure Delivers (decls : List KindDecl) (catalog : Catalog) : Prop where
  /-- A kind is delivered through the list of the owner nearest to it, which has the number that
  the owner has among the owners; a kind that is not declared has none. -/
  nearest : ∀ kind n, catalog.list? kind = some n ↔
    ∃ owner, NearestOwner decls kind owner ∧ (owners decls)[n]? = some owner
  /-- There is one such owner for every declared kind. -/
  unique : ∀ kind ∈ decls.map (·.kind), ∃! owner, NearestOwner decls kind owner
  shared : ∀ kind other owner owner', NearestOwner decls kind owner →
    NearestOwner decls other owner' →
    (catalog.list? kind = catalog.list? other ↔ owner = owner')
  count : catalog.listCount = (owners decls).length
  /-- The lists in use are numbered from zero, without gaps. -/
  used : ∀ n, (∃ kind, catalog.list? kind = some n) ↔ n < catalog.listCount
  /-- There are not more lists than declarations: fewer than `2 ^ 32` of these are counted in 32
  bits. -/
  fits : catalog.listCount ≤ decls.length
  /-- Whether a kind is another one is found by walking from parent to parent. -/
  walk : ∀ kind above, catalog.isA kind above = true ↔
    kind = above ∨ ∃ parent, catalog.parent? kind = some parent ∧ catalog.isA parent above = true
  parent : ∀ kind parent, catalog.parent? kind = some parent ↔ Parent decls kind parent
  /-- The walk ends. -/
  ends : WellFounded fun parent kind => catalog.parent? kind = some parent
  ancestors : ∀ kind above, catalog.isA kind above = true ↔
    Relation.ReflTransGen (Parent decls) kind above
  order : IsPartialOrder Kind fun kind above => catalog.isA kind above = true

theorem Tabulates.delivers (h : Tabulates decls catalog) : Delivers decls catalog where
  nearest := h.list?_eq_some
  unique kind hkind := by
    obtain ⟨owner, hnear⟩ := h.exists_nearest kind hkind
    exact ⟨owner, hnear, fun other hother => (h.list?_eq_list? hother hnear).1 rfl⟩
  shared _ _ _ _ hnear hnear' := h.list?_eq_list? hnear hnear'
  count := h.count
  used n := by
    rw [h.count]
    constructor
    · rintro ⟨kind, hlist⟩
      obtain ⟨owner, -, hn⟩ := (h.list?_eq_some kind n).1 hlist
      exact (List.getElem?_eq_some_iff.1 hn).1
    · intro hn
      exact ⟨_, h.owned n _ (List.getElem?_eq_getElem hn)⟩
  fits := by
    rw [h.count, owners, List.length_map]
    exact List.length_filter_le _ _
  walk _ _ := h.grounded.isA_iff
  parent _ _ := h.parent?_eq
  ends := by
    simp only [h.parent?_eq]
    exact h.wellFounded
  ancestors := h.isA_iff
  order := {
    refl := isA_refl catalog
    trans := fun a b c hab hbc => by
      rw [h.isA_iff] at hab hbc ⊢
      exact hab.trans hbc
    antisymm := fun a b hab hba => h.antisymm ((h.isA_iff a b).1 hab) ((h.isA_iff b a).1 hba) }

/-- What a list of declarations comes to. -/
structure Tabulated (decls : List KindDecl) : Prop where
  accepted_iff : (∃ catalog, build decls = .ok catalog) ↔ Admissible decls
  /-- The error is that of the first declaration that does not fit behind those before it. -/
  refused_iff : ∀ e, build decls = .error e ↔ ∃ before decl after,
    decls = before ++ decl :: after ∧ Admissible before ∧ Refused before decl e
  delivers : ∀ catalog, build decls = .ok catalog → Delivers decls catalog

/-- **The table of handler lists** is that of the declarations, whichever these are. -/
theorem build_tabulated (decls : List KindDecl) : Tabulated decls where
  accepted_iff := by
    constructor
    · rintro ⟨catalog, hbuild⟩
      exact (tabulates_of_build hbuild).1
    · intro h
      obtain ⟨catalog, hbuild, -⟩ := h.exists_build
      exact ⟨catalog, hbuild⟩
  refused_iff e := by
    constructor
    · intro hbuild
      rcases build_cases decls with ⟨catalog, hok, -⟩ | ⟨other, hother, hfirst⟩
      · cases hbuild.symm.trans hok
      · cases hbuild.symm.trans hother
        exact hfirst
    · rintro ⟨before, decl, after, rfl, hadmissible, hrefused⟩
      exact build_of_refused after hadmissible hrefused
  delivers _ hbuild := (tabulates_of_build hbuild).2.delivers

/-- A list inside another one's, and a kind that shares it. -/
example : (build [⟨"interact", none, true, true⟩, ⟨"interact_entity", some "interact", true, false⟩,
      ⟨"interact_villager", some "interact_entity", false, false⟩]).map (fun catalog =>
        (catalog.kinds.map catalog.list?, catalog.isA "interact_villager" "interact"))
    = .ok ([some 1, some 1, some 0], true) := by decide

end EventScripts.Catalog
