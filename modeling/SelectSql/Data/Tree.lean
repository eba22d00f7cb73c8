import SelectSql.Decimal.Binary64

/-!
# SelectSql.Data.Tree

The common form of JSON and TOML documents. Records keep their entries in the
order of the document and may repeat a key; what a repeated key means is decided
by whoever reads the record (`SelectSql.Data.Record`).

Design points:

* **Numbers keep the kind that the document gave them**: integers that fit 64 bits,
  signed or unsigned, are `int`, all others `float`.
* **Some well-formed texts have no value**: a number beyond the range of a
  `Binary64`, a string with half a surrogate pair, a date. They are `unreadable`
  and harm only whoever asks for their value.
-/

namespace SelectSql

/-- A document, or a part of one. -/
inductive Tree
  | null
  | bool (b : Bool)
  | int (n : Int)
  | float (x : Binary64)
  | text (s : String)
  | list (items : List Tree)
  | record (entries : List (String × Tree))
  | unreadable

namespace Tree

/-- The text of a text node. -/
def text? : Tree → Option String
  | .text s => some s
  | _ => none

/-- The truth value of a truth node. -/
def bool? : Tree → Option Bool
  | .bool b => some b
  | _ => none

/-- The items of a list node. -/
def list? : Tree → Option (List Tree)
  | .list items => some items
  | _ => none

/-- The texts of a list of texts. -/
def texts? : Tree → Option (List String)
  | .list items => items.mapM text?
  | _ => none

/-- The whole numbers of 64 bits, signed or unsigned. -/
def ofInt (n : Int) : Tree :=
  if Int64.minValue.toInt ≤ n ∧ n < UInt64.size then .int n
  else
    let x := Binary64.ofInt n
    if x.isFinite then .float x else .unreadable

/-! ## Key order -/

/-- Puts an entry into a list with ascending keys; an entry with the same key is replaced. -/
def insertEntry {α : Type} (key : String) (item : α) :
    List (String × α) → List (String × α)
  | [] => [(key, item)]
  | (k, x) :: rest =>
    if key < k then (key, item) :: (k, x) :: rest
    else if key = k then (key, item) :: rest
    else (k, x) :: insertEntry key item rest

mutual

/-- The same document with the entries of every record in ascending order of their
keys, the last of several entries with one key. -/
def sorted : Tree → Tree
  | .list items => .list (sortedItems items)
  | .record entries => .record (sortedEntries entries [])
  | t => t

/-- `sorted`, item by item. -/
def sortedItems : List Tree → List Tree
  | [] => []
  | t :: ts => t.sorted :: sortedItems ts

/-- `sorted`, entry by entry, into a record that is sorted already. -/
def sortedEntries : List (String × Tree) → List (String × Tree) → List (String × Tree)
  | [], done => done
  | (k, t) :: rest, done => sortedEntries rest (insertEntry k t.sorted done)

end

end Tree

end SelectSql
