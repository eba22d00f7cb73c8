import SelectSql.Data.Tree
import SelectSql.Decimal.Layout
import SelectSql.Text.Quoted

/-!
# SelectSql.Value

The values that a statement compares with, lists and binds.

Design points:

* **Three texts.** `display` is how a value is shown and, truth values apart, how it
  is written inline in SQL; `plainText` is the text that a pattern match compares
  with, where NULL is empty and strings are bare; `tree` is its JSON form.
* **In JSON the kind of a value is recovered from the kind of node.** A number is an
  integer exactly if it is written as one that fits 64 bits.
-/

namespace SelectSql

/-- A SQL value. -/
inductive Value
  | null
  | bool (b : Bool)
  | int (n : Int64)
  | float (x : Binary64)
  | text (s : String)
deriving DecidableEq, Inhabited

namespace Value

/-- The decimal digits of an integer, a minus sign in front if it is negative. -/
def intText (n : Int64) : String :=
  toString n.toInt

/-- The words for the truth values. -/
def boolText (b : Bool) : String :=
  if b then "true" else "false"

/-- The value as it is shown. -/
def display : Value → String
  | .null => "NULL"
  | .bool b => boolText b
  | .int n => intText n
  | .float x => x.text
  | .text s => Text.Quoted.quote s

/-- The text that stands for the value where a text is needed. -/
def plainText : Value → String
  | .null => ""
  | .bool b => boolText b
  | .int n => intText n
  | .float x => x.text
  | .text s => s

/-- Equality of values, with numbers compared as numbers. -/
def same : Value → Value → Bool
  | .float x, .float y => x.sameNumber y
  | v, w => decide (v = w)

/-- `same`, item by item. -/
def allSame : List Value → List Value → Bool
  | [], [] => true
  | v :: vs, w :: ws => v.same w && allSame vs ws
  | _, _ => false

/-! ## JSON form -/

/-- The JSON form. Numbers that JSON cannot write are null. -/
def tree : Value → Tree
  | .null => .null
  | .bool b => .bool b
  | .int n => .int n.toInt
  | .float x => if x.isFinite then .float x else .null
  | .text s => .text s

/-- The value of a document; integers beyond 64 signed bits are floats. Lists, records
and unreadable nodes are no values. -/
def ofTree? : Tree → Option Value
  | .null => some .null
  | .bool b => some (.bool b)
  | .int n =>
    if Int64.minValue.toInt ≤ n ∧ n ≤ Int64.maxValue.toInt then some (.int (Int64.ofInt n))
    else some (.float (Binary64.ofInt n))
  | .float x => some (.float x)
  | .text s => some (.text s)
  | .list _ | .record _ | .unreadable => none

/-- The values of a list. -/
def listOfTree? (t : Tree) : Option (List Value) := do
  (← t.list?).mapM ofTree?

end Value

end SelectSql
