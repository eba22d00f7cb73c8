import SelectSql.Query.Call
import SelectSql.Statement

/-!
# SelectSql.Query.Fetch

What a query asks of a database: a statement with its values, and how many of its rows
are wanted.

Design points:

* **The statement has its tables in braces.** Whoever holds the connection knows how
  tables are called there, and replaces them last (`Fetch.expand`).
* **Looking up an identifier narrows a copy of the query** by one more operand of its
  condition; the query itself stays as it is.
-/

namespace SelectSql

/-- Which rows of a statement are wanted. -/
inductive Wanted
  /-- All rows. -/
  | all
  /-- The first row, if there is one. -/
  | first
deriving DecidableEq

/-- A request for rows. -/
structure Fetch where
  wanted : Wanted
  statement : Compiled
deriving DecidableEq

/-- The request with the tables of its statement replaced by their names, each behind the
same beginning. -/
def Fetch.expand (beginning : String) (f : Fetch) : Fetch :=
  { f with statement :=
    { f.statement with sql := Fragment.expandTables beginning f.statement.sql } }

namespace Query

/-- The query narrowed to the rows with an identifier. -/
def withId (q : Query) (id : Value) : Query :=
  { q with conditions := Predicate.push .and (Predicate.compare "id" .eq id false) q.conditions }

/-- Asks for all rows. -/
def get (q : Query) (d : Dialect) : Fetch :=
  ⟨.all, q.compile d⟩

/-- Asks for the first row. -/
def first (q : Query) (d : Dialect) : Fetch :=
  ⟨.first, q.compile d⟩

/-- Asks for the first row with an identifier. -/
def find (q : Query) (d : Dialect) (id : Value) : Fetch :=
  (q.withId id).first d

end Query

end SelectSql
