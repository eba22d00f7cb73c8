import SelectSql.Data.Tree

/-!
# SelectSql.Data.Toml.Table

The tables of a TOML document while it is read: which keys are taken, and which
tables may still be extended.

Design points:

* **A table remembers its origin.** A table under a header of its own is finished
  by that header; one that only a longer header or a dotted key has implied may be
  given its contents later, by the same means.
* **A header is a path.** It leads through tables, and through the last element of
  an array of tables; a key that is missing on the way becomes an implied table.
* **Nothing is overwritten**: every operation is `none` on a key that is taken.
-/

namespace SelectSql.Toml

/-- What brought a table into being. -/
inductive Origin
  /-- A header of its own, or the document itself. -/
  | header
  /-- A header further down. -/
  | implied
  /-- A dotted key. -/
  | dotted
deriving DecidableEq

/-- What stands under a key. -/
inductive Item
  | value (t : Tree)
  | table (origin : Origin) (entries : List (String × Item))
  | tables (elements : List (List (String × Item)))

/-- The entries of a table. -/
abbrev Entries := List (String × Item)

namespace Entries

/-- The item under a key. -/
def item? (key : String) (es : Entries) : Option Item :=
  es.lookup key

/-- Puts an item in the place of the one under the same key. -/
def replace (key : String) (item : Item) (es : Entries) : Entries :=
  es.map fun e => if e.1 == key then (key, item) else e

/-- Changes the table at the end of a path. The change is told the origin of the
table. Tables that are missing on the way come into being with the origin `made`;
a path of dotted keys does not enter a table that has a header of its own. -/
def update (made : Origin) (change : Origin → Entries → Option Entries) :
    List String → Origin → Entries → Option Entries
  | [], origin, es => change origin es
  | key :: path, _, es =>
    match item? key es with
    | none => (update made change path made []).map fun t => es ++ [(key, .table made t)]
    | some (.value _) => none
    | some (.tables elements) =>
      match elements.getLast? with
      | none => none
      | some last => (update made change path .header last).map fun t =>
        replace key (.tables (elements.dropLast ++ [t])) es
    | some (.table origin t) =>
      if made = .dotted ∧ origin = .header then none
      else (update made change path origin t).map fun t => replace key (.table origin t) es

/-- Puts a value under a dotted key: the tables on the way are those of dotted keys. -/
def insert (path : List String) (key : String) (value : Tree) (es : Entries) :
    Option Entries :=
  update .dotted (fun origin es =>
    if path.isEmpty = false ∧ origin ≠ .dotted then none
    else match item? key es with
      | none => some (es ++ [(key, .value value)])
      | some _ => none) path .header es

/-- Opens the table of a header. -/
def openTable (path : List String) (key : String) (es : Entries) : Option Entries :=
  update .implied (fun _ es =>
    match item? key es with
    | none => some (es ++ [(key, .table .header [])])
    | some (.table .implied t) => some (replace key (.table .header t) es)
    | some _ => none) path .header es

/-- Appends an element to the array of tables of a header. -/
def openElement (path : List String) (key : String) (es : Entries) : Option Entries :=
  update .implied (fun _ es =>
    match item? key es with
    | none => some (es ++ [(key, .tables [[]])])
    | some (.tables elements) => some (replace key (.tables (elements ++ [[]])) es)
    | some _ => none) path .header es

/-- Puts a value under a dotted key of the table that was opened last. -/
def insertAt (opened path : List String) (key : String) (value : Tree) (es : Entries) :
    Option Entries :=
  update .implied (fun _ es => insert path key value es) opened .header es

end Entries

/-! ## The finished document -/

mutual

/-- The node of an item. -/
def Item.tree : Item → Tree
  | .value t => t
  | .table _ es => .record (entriesTrees es)
  | .tables elements => .list (elementTrees elements)

/-- The entries of a table as those of a record. -/
def entriesTrees : List (String × Item) → List (String × Tree)
  | [] => []
  | (k, i) :: rest => (k, i.tree) :: entriesTrees rest

/-- The elements of an array of tables as records. -/
def elementTrees : List (List (String × Item)) → List Tree
  | [] => []
  | es :: rest => .record (entriesTrees es) :: elementTrees rest

end

end SelectSql.Toml
