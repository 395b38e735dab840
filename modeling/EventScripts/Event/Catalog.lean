import EventScripts.Event.Basic
/-!
# The catalog of event kinds

Every kind is declared once, after its parent. A kind owns a handler list or is
delivered through the list of its parent, so several kinds may share one list.
Lists are numbered in the order in which their owners are declared.

The table keeps the latest declaration first. A parent thus stands further down
than its children, and the walk to the ancestors of a kind is a recursion on
the table.

This is the `EventCatalog` of `SPEC_FULL.md` §10.6, the explicit table of §9.
-/

namespace EventScripts

/-- The declaration of one kind. -/
structure KindDecl where
  kind : Kind
  parent : Option Kind := none
  ownsList : Bool := false
  /-- Events of the kind reach scripts even when they are blocked. -/
  listensBlocked : Bool := false
deriving DecidableEq, Repr

/-- What the catalog knows about a declared kind. -/
structure KindInfo where
  parent : Option Kind
  list : Nat
  listensBlocked : Bool
deriving DecidableEq, Repr

/-- The declared kinds, latest first, and the number of handler lists. -/
structure Catalog where
  entries : List (Kind × KindInfo) := []
  listCount : Nat := 0
deriving DecidableEq, Repr, Inhabited

/-- Why a declaration is refused. -/
inductive CatalogError where
  | duplicate (kind : Kind)
  | unknownParent (kind parent : Kind)
  | noHandlerList (kind : Kind)
deriving DecidableEq, Repr

def CatalogError.message : CatalogError → String
  | duplicate kind => s!"event kind '{kind}' is declared twice"
  | unknownParent kind parent => s!"event kind '{kind}' extends unknown kind '{parent}'"
  | noHandlerList kind =>
    s!"event kind '{kind}' has no handler list of its own and no parent to inherit one from"

namespace Catalog

def info? (catalog : Catalog) (kind : Kind) : Option KindInfo := catalog.entries.lookup kind

def contains (catalog : Catalog) (kind : Kind) : Bool := (catalog.info? kind).isSome

/-- The handler list that events of a kind are delivered through. -/
def list? (catalog : Catalog) (kind : Kind) : Option Nat := (catalog.info? kind).map (·.list)

/-- Whether events of a kind reach scripts even when they are blocked. -/
def listensBlocked (catalog : Catalog) (kind : Kind) : Bool :=
  (catalog.info? kind).any (·.listensBlocked)

/-- The declared kinds. -/
def kinds (catalog : Catalog) : List Kind := catalog.entries.map (·.1)

/-- A kind, its parent, the parent of that, and so on, in a table with the parents further down. -/
def lineage : List (Kind × KindInfo) → Kind → List Kind
  | [], kind => [kind]
  | (k, info) :: older, kind =>
    if k = kind then
      match info.parent with
      | none => [kind]
      | some parent => kind :: lineage older parent
    else lineage older kind

/-- Whether `kind` is `ancestor` or one of its subtypes. -/
def isA (catalog : Catalog) (kind ancestor : Kind) : Bool :=
  (lineage catalog.entries kind).contains ancestor

/-- The list of a parent that is to be inherited; `none` without a parent. -/
def inherited (catalog : Catalog) (decl : KindDecl) : Except CatalogError (Option Nat) :=
  match decl.parent with
  | none => .ok none
  | some parent =>
    match catalog.list? parent with
    | some list => .ok (some list)
    | none => .error (.unknownParent decl.kind parent)

/-- Enters a kind that is delivered through `list`. -/
def enter (catalog : Catalog) (decl : KindDecl) (list listCount : Nat) : Catalog :=
  { entries := (decl.kind, ⟨decl.parent, list, decl.listensBlocked⟩) :: catalog.entries
    listCount }

/-- Declares one more kind. A kind declared before is refused first, then an unknown parent, then
a kind without any list. -/
def declare (catalog : Catalog) (decl : KindDecl) : Except CatalogError Catalog :=
  if catalog.contains decl.kind then .error (.duplicate decl.kind)
  else
    match catalog.inherited decl with
    | .error e => .error e
    | .ok up =>
      if decl.ownsList then .ok (catalog.enter decl catalog.listCount (catalog.listCount + 1))
      else
        match up with
        | some list => .ok (catalog.enter decl list catalog.listCount)
        | none => .error (.noHandlerList decl.kind)

/-- The catalog of a list of declarations, or the error of the first that is refused. -/
def build (decls : List KindDecl) : Except CatalogError Catalog :=
  decls.foldlM declare {}

theorem isSome_list? (catalog : Catalog) (kind : Kind) :
    (catalog.list? kind).isSome = catalog.contains kind := Option.isSome_map

theorem isA_refl (catalog : Catalog) (kind : Kind) : catalog.isA kind kind = true := by
  have h : ∀ entries : List (Kind × KindInfo), kind ∈ lineage entries kind := by
    intro entries
    induction entries with
    | nil => simp [lineage]
    | cons e older ih =>
      unfold lineage
      split
      · split <;> simp
      · exact ih
  simpa [isA] using h catalog.entries

end Catalog

end EventScripts
