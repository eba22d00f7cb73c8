import SelectSql.JoinCondition.Sequence
import SelectSql.Value

/-!
# SelectSql.Query

The statement as data: one clause per field of `Query`, in the order in which the
clauses are written.

Design points:

* **Names are texts of the caller** and are written as they are; only tables are put
  in braces, as placeholders for the name in the database.
* **The conditions are the operands of one AND.** An OR is a predicate of its own,
  `Predicate.anyOf`, with its alternatives in order.
* **Queries nest** in the source, in joins and in set memberships, so the types of
  clauses that hold queries are mutually recursive with `Query`.
-/

namespace SelectSql

/-- A column of a projection. -/
inductive Column
  /-- SQL of the caller, with values for its markers. `standalone` marks the star. -/
  | raw (sql : String) (params : List Value) (standalone : Bool)
  /-- A named column, of a table and under an alias if these are given. -/
  | named (name : String) (table asName : Option String)
  /-- An aggregate of an operand. -/
  | aggregate (function : Aggregate) (operand : String) (asName : Option String)
deriving DecidableEq

namespace Column

/-- All columns. -/
def star : Column := .raw "*" [] true

/-- Whether the column is one that stands alone. -/
def isStandalone : Column → Bool
  | .raw _ _ standalone => standalone
  | _ => false

/-- The column without regard to the values of its markers. -/
def text : Column → String
  | .raw sql _ _ => sql
  | .named name table asName =>
    let locator := match table with
      | some t => s!"{t}.{name}"
      | none => name
    match asName with
    | some a => s!"({locator}) AS {a}"
    | none => locator
  | .aggregate function operand asName =>
    let call := s!"{function.keyword}({operand})"
    match asName with
    | some a => s!"{call} {a}"
    | none => call

end Column

/-- The list of columns, and whether equal rows are written once. -/
structure Projection where
  columns : List Column := []
  distinct : Bool := false
deriving DecidableEq

/-- An item of the ORDER BY clause. -/
structure OrderTerm where
  column : String
  ascending : Bool
deriving DecidableEq

/-- The item in SQL. -/
def OrderTerm.text (t : OrderTerm) : String :=
  t.column ++ (if t.ascending then " ASC" else " DESC")

/-- How a pattern is matched. -/
structure LikeOptions where
  caseSensitive : Bool := true
  accentSensitive : Bool := true
  /-- The character that takes the meaning from the one behind it. -/
  escape : Char := '\\'
deriving DecidableEq

/-! ## Clauses that hold queries -/

mutual

/-- A SELECT statement. -/
structure Query where
  source : Source
  projection : Projection
  joins : List Join
  conditions : List Predicate
  grouping : Grouping
  ordering : List OrderTerm

/-- Where the rows come from. -/
inductive Source
  /-- A table. -/
  | table (name : String) (asName : Option String)
  /-- A matrix of values; the aliases name its columns, the name the matrix. -/
  | values (rows : List (List Value)) (aliases : Option (List String)) (name : String)
  /-- The rows of another query. -/
  | query (query : Query) (asName : Option String)

/-- What is joined. -/
inductive JoinTarget
  | table (name : String)
  | query (query : Query)

/-- A join. -/
structure Join where
  target : JoinTarget
  kind : JoinKind
  conditions : List JoinTerm
  asName : String

/-- What a set membership test looks into. -/
inductive SetSource
  | values (values : List Value)
  | query (query : Query)

/-- A condition of a WHERE or HAVING clause. -/
inductive Predicate
  /-- A column compared with a value. -/
  | comparison (column : String) (op : Operator) (value : Value) (negated : Bool)
  /-- A column compared with another column. -/
  | columnComparison (column : String) (op : Operator) (other : String) (negated : Bool)
  /-- A column that is, or is not, NULL. -/
  | nullCheck (column : String) (negated : Bool)
  /-- A text column compared as a whole. -/
  | fullText (column value : String) (negated : Bool)
  /-- A column matched with a pattern. -/
  | pattern (column value : String) (negated : Bool) (options : LikeOptions)
  /-- A column that is, or is not, in a set. -/
  | inSet (column : String) (source : SetSource) (negated : Bool)
  /-- Alternatives combined with OR. -/
  | anyOf (alternatives : List Predicate)

/-- A HAVING predicate with the word that ties it to the one before. -/
structure HavingEntry where
  connective : Connective
  predicate : Predicate

/-- The grouping columns and the predicates on groups. -/
structure Grouping where
  columns : List String
  having : List HavingEntry

end

namespace Source

/-- The name that a matrix has unless the caller gives another. -/
def defaultMatrixName : String := "custom_value_table"

/-- The name of the table, for a source that is a table. -/
def tableName? : Source → Option String
  | .table name _ => some name
  | _ => none

end Source

namespace Query

/-- All rows of a source. -/
def ofSource (source : Source) : Query :=
  ⟨source, {}, [], [], ⟨[], []⟩, []⟩

/-- All rows of a table. -/
def table (name : String) (asName : Option String) : Query :=
  ofSource (.table name asName)

/-- All rows of a query. -/
def wrap (q : Query) (asName : Option String) : Query :=
  ofSource (.query q asName)

end Query

end SelectSql
