import SelectSql.Query
import SelectSql.Query.Names

/-!
# SelectSql.Query.Document

The document form of a query, written by `Query.tree`.

Design points:

* **A clause is a record of its fields, a choice is a record with one entry**: the name
  of the variant, and under it the record of its fields.
* **What is optional is null when it is missing**, so an empty alias and no alias are
  two things.
-/

namespace SelectSql

namespace Tree

/-- A text, or null. -/
def ofText? : Option String → Tree
  | some s => .text s
  | none => .null

/-- A list of texts. -/
def ofTexts (ss : List String) : Tree :=
  .list (ss.map .text)

/-- A variant with what stands under its name. -/
def variant (name : String) (payload : Tree) : Tree :=
  .record [(name, payload)]

end Tree

/-! ## Parts without nested queries -/

/-- The document of a column. -/
def Column.tree : Column → Tree
  | .raw sql params standalone => .variant "Raw" (.record [
      ("sql", .text sql), ("params", .list (params.map Value.tree)),
      ("standalone", .bool standalone)])
  | .named name table asName => .variant "Named" (.record [
      ("name", .text name), ("table", .ofText? table), ("alias", .ofText? asName)])
  | .aggregate function operand asName => .variant "Aggregate" (.record [
      ("func", .text function.name), ("operand", .text operand), ("alias", .ofText? asName)])

/-- The document of a projection. -/
def Projection.tree (p : Projection) : Tree :=
  .record [("columns", .list (p.columns.map Column.tree)), ("distinct", .bool p.distinct)]

/-- The document of an ORDER BY item. -/
def OrderTerm.tree (t : OrderTerm) : Tree :=
  .record [("column", .text t.column), ("ascending", .bool t.ascending)]

/-- The document of pattern options. -/
def LikeOptions.tree (o : LikeOptions) : Tree :=
  .record [("case_sensitive", .bool o.caseSensitive),
    ("accent_sensitive", .bool o.accentSensitive),
    ("escape", .text (String.singleton o.escape))]

/-- The document of a join condition. -/
def JoinCondition.tree (c : JoinCondition) : Tree :=
  .record [("left", .text c.left), ("op", .text c.op.name), ("right", .text c.right)]

/-- The document of a term of an ON clause. -/
def JoinTerm.tree (t : JoinTerm) : Tree :=
  .record [("condition", t.condition.tree), ("logic", .ofText? (t.connective.map Connective.name))]

/-! ## Parts with nested queries -/

mutual

/-- The document of a query. -/
def Query.tree : Query → Tree
  | ⟨source, projection, joins, conditions, grouping, ordering⟩ => .record [
      ("from", source.tree),
      ("projection", projection.tree),
      ("joins", .record [("joins", .list (Join.trees joins))]),
      ("conditions", .record [("predicates", .list (Predicate.trees conditions))]),
      ("grouping", grouping.tree),
      ("ordering", .record [("orderings", .list (ordering.map OrderTerm.tree))])]

/-- The document of a source. -/
def Source.tree : Source → Tree
  | .table name asName => .variant "Table" (.record [
      ("name", .text name), ("alias", .ofText? asName)])
  | .values rows aliases name => .variant "Values" (.record [
      ("rows", .list (rows.map fun row => .list (row.map Value.tree))),
      ("aliases", match aliases with
        | some names => .ofTexts names
        | none => .null),
      ("name", .text name)])
  | .query q asName => .variant "SubQuery" (.record [
      ("query", q.tree), ("alias", .ofText? asName)])

/-- The document of a join target. -/
def JoinTarget.tree : JoinTarget → Tree
  | .table name => .variant "Table" (.text name)
  | .query q => .variant "SubQuery" q.tree

/-- The document of a join. -/
def Join.tree : Join → Tree
  | ⟨target, kind, conditions, asName⟩ => .record [
      ("target", target.tree), ("kind", .text kind.name),
      ("conditions", .list (conditions.map JoinTerm.tree)), ("alias", .text asName)]

/-- The documents of joins. -/
def Join.trees : List Join → List Tree
  | [] => []
  | j :: js => j.tree :: Join.trees js

/-- The document of a set. -/
def SetSource.tree : SetSource → Tree
  | .values vs => .variant "Values" (.list (vs.map Value.tree))
  | .query q => .variant "Query" q.tree

/-- The document of a predicate. -/
def Predicate.tree : Predicate → Tree
  | .comparison column op value negated => .variant "Comparison" (.record [
      ("column", .text column), ("op", .text op.name), ("value", value.tree),
      ("negate", .bool negated)])
  | .columnComparison column op other negated => .variant "ColumnComparison" (.record [
      ("column", .text column), ("op", .text op.name), ("other", .text other),
      ("negate", .bool negated)])
  | .nullCheck column negated => .variant "NullCheck" (.record [
      ("column", .text column), ("negate", .bool negated)])
  | .fullText column value negated => .variant "FullText" (.record [
      ("column", .text column), ("value", .text value), ("negate", .bool negated)])
  | .pattern column value negated options => .variant "Pattern" (.record [
      ("column", .text column), ("value", .text value), ("negate", .bool negated),
      ("options", options.tree)])
  | .inSet column source negated => .variant "InSet" (.record [
      ("column", .text column), ("source", source.tree), ("negate", .bool negated)])
  | .anyOf ps => .variant "OrGroup" (.list (Predicate.trees ps))

/-- The documents of predicates. -/
def Predicate.trees : List Predicate → List Tree
  | [] => []
  | p :: ps => p.tree :: Predicate.trees ps

/-- The document of a grouping. -/
def Grouping.tree : Grouping → Tree
  | ⟨columns, having⟩ => .record [
      ("columns", .ofTexts columns), ("having", .list (HavingEntry.trees having))]

/-- The documents of HAVING entries. -/
def HavingEntry.trees : List HavingEntry → List Tree
  | [] => []
  | ⟨connective, predicate⟩ :: rest => .record [
      ("logic", .text connective.name), ("predicate", predicate.tree)]
      :: HavingEntry.trees rest

end

end SelectSql
