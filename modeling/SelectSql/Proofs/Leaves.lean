import SelectSql.Query

/-!
# SelectSql.Proofs.Leaves

What a caller puts into a query, in the order in which it stands in the statement:
names and operands, table names, raw fragments with their values, values, and the
escape characters of patterns. Statements about the texts or the values of a query
quantify over its leaves.

HAVING predicates without grouping columns, the column of an empty set and the name
of a matrix without aliases are not written, so they are no leaves.
-/

namespace SelectSql

/-- A piece of a statement that comes from the caller. -/
inductive Leaf
  /-- A name, an alias or an operand. -/
  | text (s : String)
  /-- The name of a table, which is written in braces. -/
  | table (name : String)
  /-- SQL with the values for its markers. -/
  | fragment (sql : String) (params : List Value)
  | value (v : Value)
  /-- The escape character of a pattern. -/
  | escape (c : Char)

/-- The values that come with a leaf. -/
def Leaf.values : Leaf → List Value
  | .fragment _ params => params
  | .value v => [v]
  | _ => []

/-! ## Clauses without nested queries -/

/-- The leaves of a column. -/
def Column.leaves : Column → List Leaf
  | .raw sql params _ => [.fragment sql params]
  | .named name table asName => (table.toList ++ name :: asName.toList).map .text
  | .aggregate _ operand asName => (operand :: asName.toList).map .text

/-- The leaves of the ON clause of a join. -/
def JoinTerm.leaves (t : JoinTerm) : List Leaf :=
  [.text t.condition.left, .text t.condition.right]

/-! ## Clauses with nested queries -/

mutual

/-- The leaves of a query, in the order of the text. -/
def Query.leaves : Query → List Leaf
  | ⟨source, projection, joins, conditions, grouping, ordering⟩ =>
    projection.columns.flatMap Column.leaves ++ source.leaves ++ Join.leavesAll joins ++
      Predicate.leavesAll conditions ++ grouping.leaves ++ ordering.map fun t => .text t.column

/-- The leaves of a source; a matrix row by row. -/
def Source.leaves : Source → List Leaf
  | .table name asName => .table name :: asName.toList.map .text
  | .values rows aliases name =>
    rows.flatten.map .value ++ (match aliases with
      | some names => (name :: names).map .text
      | none => [])
  | .query q asName => q.leaves ++ asName.toList.map .text

/-- The leaves of what is joined. -/
def JoinTarget.leaves : JoinTarget → List Leaf
  | .table name => [.table name]
  | .query q => q.leaves

/-- The leaves of a join. -/
def Join.leaves : Join → List Leaf
  | ⟨target, _, conditions, asName⟩ =>
    target.leaves ++ .text asName :: conditions.flatMap JoinTerm.leaves

/-- The leaves of joins. -/
def Join.leavesAll : List Join → List Leaf
  | [] => []
  | j :: js => j.leaves ++ Join.leavesAll js

/-- The leaves of a predicate. The texts of patterns and of full text comparisons are
values. -/
def Predicate.leaves : Predicate → List Leaf
  | .comparison column _ value _ => [.text column, .value value]
  | .columnComparison column _ other _ => [.text column, .text other]
  | .nullCheck column _ => [.text column]
  | .fullText column value _ => [.text column, .value (.text value)]
  | .pattern column value _ options =>
    [.text column, .value (.text value), .escape options.escape]
  | .inSet _ (.values []) _ => []
  | .inSet column source _ => .text column :: source.leaves
  | .anyOf ps => Predicate.leavesAll ps

/-- The leaves of a set. -/
def SetSource.leaves : SetSource → List Leaf
  | .values vs => vs.map .value
  | .query q => q.leaves

/-- The leaves of predicates. -/
def Predicate.leavesAll : List Predicate → List Leaf
  | [] => []
  | p :: ps => p.leaves ++ Predicate.leavesAll ps

/-- The leaves of the GROUP BY and HAVING clauses; without columns there are none. -/
def Grouping.leaves : Grouping → List Leaf
  | ⟨columns, having⟩ =>
    if columns.isEmpty then []
    else columns.map .text ++ HavingEntry.leavesAll having

/-- The leaves of HAVING predicates. -/
def HavingEntry.leavesAll : List HavingEntry → List Leaf
  | [] => []
  | ⟨_, predicate⟩ :: rest => predicate.leaves ++ HavingEntry.leavesAll rest

end

/-- The values of a query, in the order of the text. -/
def Query.values (q : Query) : List Value :=
  q.leaves.flatMap Leaf.values

end SelectSql
