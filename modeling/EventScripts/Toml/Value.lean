/-!
# TOML values

The values of a TOML document as far as they are told apart here: floats and
dates are checked when they are read, but nothing asks for their value.
-/

namespace EventScripts.Toml

inductive Value where
  | string (text : String)
  | integer (value : Int)
  | float
  | boolean (value : Bool)
  | date
  | array (items : List Value)
  | table (entries : List (String × Value))
deriving Repr

/-- The integers of a document: 64 bits with a sign. -/
def isInteger (n : Int) : Bool := -Int.pow 2 63 ≤ n && n < Int.pow 2 63

/-- A table while a document is read, entry by entry. A table that has only been passed through
is implicit; it may still be opened by a header of its own, unless it came from a dotted key. -/
inductive Item where
  | value (value : Value)
  | table (implicit dotted : Bool) (entries : List (String × Item))
  | tables (elements : List (List (String × Item)))

abbrev Entries := List (String × Item)

namespace Entries

/-- Sets an entry, where it stands if there is one. -/
def set (entries : Entries) (key : String) (item : Item) : Entries :=
  if (entries.lookup key).isSome then entries.map fun e => if e.1 = key then (key, item) else e
  else entries ++ [(key, item)]

/-- Applies `f` to the last of some tables. -/
def atLast (f : Entries → Option Entries) : List Entries → Option (List Entries)
  | [] => none
  | [last] => (f last).map ([·])
  | first :: rest => (atLast f rest).map (first :: ·)

/-- Applies `f` to the table that the headers' path leads to. Missing tables are made on the way;
an array of tables leads to its last one. -/
def atHeader (f : Entries → Option Entries) : List String → Entries → Option Entries
  | [], entries => f entries
  | key :: path, entries =>
    match entries.lookup key with
    | none => (atHeader f path []).map fun t => entries.set key (.table true false t)
    | some (.value _) => none
    | some (.tables elements) =>
      (atLast (atHeader f path) elements).map fun es => entries.set key (.tables es)
    | some (.table implicit dotted t) =>
      (atHeader f path t).map fun t => entries.set key (.table implicit dotted t)

/-- Opens the table of a header, which must not have been opened before. -/
def openTable (path : List String) (last : String) (root : Entries) : Option Entries :=
  atHeader (fun entries =>
    match entries.lookup last with
    | none => some (entries.set last (.table false false []))
    | some (.table true false t) => some (entries.set last (.table false false t))
    | some _ => none) path root

/-- Opens one more table of an array of tables. -/
def openElement (path : List String) (last : String) (root : Entries) : Option Entries :=
  atHeader (fun entries =>
    match entries.lookup last with
    | none => some (entries.set last (.tables [[]]))
    | some (.tables elements) => some (entries.set last (.tables (elements ++ [[]])))
    | some _ => none) path root

/-- Sets the value of a key that has none. -/
def setNew (entries : Entries) (key : String) (value : Value) : Option Entries :=
  if (entries.lookup key).isSome then none else some (entries.set key (.value value))

/-- Sets the value of a dotted key, given whether the table at hand came from one. Tables that
were opened by a header are not extended by dotted keys. -/
def setDotted (key : String) (value : Value) : List String → Bool → Entries → Option Entries
  | [], dotted, entries => if dotted then entries.setNew key value else none
  | k :: path, _, entries =>
    match entries.lookup k with
    | none => (setDotted key value path true []).map fun t => entries.set k (.table true true t)
    | some (.value _) => none
    | some (.tables elements) =>
      (atLast (setDotted key value path false) elements).map fun es => entries.set k (.tables es)
    | some (.table implicit dotted t) =>
      if implicit then
        (setDotted key value path dotted t).map fun t => entries.set k (.table implicit dotted t)
      else none

/-- Sets the value of a key, plain or dotted, in a table. -/
def setValue (path : List String) (key : String) (value : Value) (entries : Entries) :
    Option Entries :=
  if path.isEmpty then entries.setNew key value else setDotted key value path false entries

end Entries

mutual

/-- The value that an item has in the end. -/
def Item.toValue : Item → Value
  | .value v => v
  | .table _ _ entries => .table (valuesOf entries)
  | .tables elements => .array (tablesOf elements)

def valuesOf : List (String × Item) → List (String × Value)
  | [] => []
  | (key, item) :: rest => (key, item.toValue) :: valuesOf rest

def tablesOf : List (List (String × Item)) → List Value
  | [] => []
  | entries :: rest => .table (valuesOf entries) :: tablesOf rest

end

end EventScripts.Toml
