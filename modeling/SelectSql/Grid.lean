import SelectSql.Data.Json.Printer

/-!
# SelectSql.Grid

Rows as a grid of padded text cells.

Design points:

* **The columns are all keys of all rows, in ascending order.** A row without a key has
  an empty cell there.
* **A column is as wide as its longest text**, header included, counted in characters.
-/

namespace SelectSql

/-- A row: texts for the keys of its columns. -/
abbrev Row := List (String × Tree)

/-- Rows laid out as cells. -/
structure Grid where
  columns : List String
  widths : List Nat
  cells : List (List String)

namespace Grid

/-- The text of a cell: NULL, a bare text, or JSON. -/
def cellText : Tree → String
  | .null => "NULL"
  | .text s => s
  | t => t.sorted.json

/-- Adds a key to ascending keys. -/
def insertKey (key : String) : List String → List String
  | [] => [key]
  | k :: ks =>
    if key < k then key :: k :: ks
    else if key = k then k :: ks
    else k :: insertKey key ks

/-- All keys of all rows, in ascending order. -/
def keys (rows : List Row) : List String :=
  (rows.flatMap fun row => row.map Prod.fst).foldl (fun ks k => insertKey k ks) []

/-- The text of a row in a column; of several entries with one key the last counts. -/
def cell (row : Row) (column : String) : String :=
  match row.reverse.lookup column with
  | some t => cellText t
  | none => ""

/-- The grid of rows. -/
def ofRows (rows : List Row) : Grid :=
  let columns := keys rows
  { columns
    widths := columns.map fun c =>
      (rows.map fun row => (cell row c).length).foldl max c.length
    cells := rows.map fun row => columns.map (cell row) }

/-- A text filled up with spaces to a width. Widths have no bound here; a formatter that takes
the width while it runs may have one, such as 65535. -/
def padTo (width : Nat) (text : String) : String :=
  text ++ "".pushn ' ' (width - text.length)

/-- Texts side by side, each in the width of its column. -/
def line (g : Grid) (texts : List String) : String :=
  " │ ".intercalate (List.zipWith padTo g.widths texts)

/-- The names of the columns. -/
def header (g : Grid) : String :=
  g.line g.columns

/-- The line between header and rows. -/
def rule (g : Grid) : String :=
  "─┼─".intercalate (g.widths.map fun w => "".pushn '─' w)

/-- The rows. -/
def lines (g : Grid) : List String :=
  g.cells.map g.line

end Grid

end SelectSql
