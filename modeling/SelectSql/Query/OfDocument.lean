import SelectSql.Data.Json.Printer
import SelectSql.Data.Json.Reader
import SelectSql.Data.Record
import SelectSql.Query.Document

/-!
# SelectSql.Query.OfDocument

Reads a query back from its document form.

Design points:

* **Reading carries a budget of nesting levels** that it may still enter; a list or a
  record needs one. The recursion follows the budget, so a document that is nested
  deeper than the budget is refused.
* **Every field must be there, except for those that may be null**, and a field holds
  nothing but what its type allows.
-/

namespace SelectSql

namespace Tree

/-- The fields of a JSON record, none of which a list may leave out. -/
def fieldsOf? (names : List String) (t : Tree) : Option (List (Option Tree)) :=
  t.fields? .json false names

/-- The items of a list, which needs one level of nesting. -/
def itemsWithin? (depth : Nat) (t : Tree) : Option (List Tree) :=
  if depth = 0 then none else t.list?

/-- The texts of a list, which needs one level of nesting. -/
def textsWithin? (depth : Nat) (t : Tree) : Option (List String) := do
  (← t.itemsWithin? depth).mapM text?

/-- The texts of a list, or nothing for null. -/
def textsOrNullWithin? (depth : Nat) : Option Tree → Option (Option (List String))
  | none => some none
  | some .null => some none
  | some t => (t.textsWithin? depth).map some

/-- The values of a list, which needs one level of nesting. -/
def valuesWithin? (depth : Nat) (t : Tree) : Option (List Value) := do
  (← t.itemsWithin? depth).mapM Value.ofTree?

/-- A character, written as a text of one character. -/
def char? (t : Tree) : Option Char := do
  match (← t.text?).toList with
  | [c] => some c
  | _ => none

/-- An operator by its name. -/
def operator? (depth : Nat) (t : Tree) : Option Operator := do
  Operator.ofName? (← t.bare? .json depth)

/-- A connective by its name. -/
def connective? (depth : Nat) (t : Tree) : Option Connective := do
  Connective.ofName? (← t.bare? .json depth)

/-- A connective by its name, or nothing for null. -/
def connectiveOrNull? (depth : Nat) : Option Tree → Option (Option Connective)
  | none => some none
  | some .null => some none
  | some t => (t.connective? depth).map some

end Tree

/-! ## Parts without nested queries -/

/-- The column of a document. -/
def Column.ofTree? : Nat → Tree → Option Column
  | depth + 2, t => do
    let (name, payload) ← t.variant?
    match name with
    | "Raw" =>
      let [sql, params, standalone] ← payload.fieldsOf? ["sql", "params", "standalone"] | none
      return .raw (← (← sql).text?) (← (← params).valuesWithin? depth) (← (← standalone).bool?)
    | "Named" =>
      let [name, table, asName] ← payload.fieldsOf? ["name", "table", "alias"] | none
      return .named (← (← name).text?) (← Tree.textOrNull? table) (← Tree.textOrNull? asName)
    | "Aggregate" =>
      let [function, operand, asName] ← payload.fieldsOf? ["func", "operand", "alias"] | none
      let function ← Aggregate.ofName? (← (← function).bare? .json depth)
      return .aggregate function (← (← operand).text?) (← Tree.textOrNull? asName)
    | _ => none
  | _, _ => none

/-- The projection of a document. -/
def Projection.ofTree? : Nat → Tree → Option Projection
  | depth + 2, t => do
    let [columns, distinct] ← t.fieldsOf? ["columns", "distinct"] | none
    let columns ← (← (← columns).list?).mapM (Column.ofTree? depth)
    return ⟨columns, ← (← distinct).bool?⟩
  | _, _ => none

/-- The ORDER BY item of a document. -/
def OrderTerm.ofTree? : Nat → Tree → Option OrderTerm
  | _ + 1, t => do
    let [column, ascending] ← t.fieldsOf? ["column", "ascending"] | none
    return ⟨← (← column).text?, ← (← ascending).bool?⟩
  | _, _ => none

/-- The ORDER BY items of a document. -/
def OrderTerm.listOfTree? : Nat → Tree → Option (List OrderTerm)
  | depth + 2, t => do
    let [orderings] ← t.fieldsOf? ["orderings"] | none
    (← (← orderings).list?).mapM (OrderTerm.ofTree? depth)
  | _, _ => none

/-- The pattern options of a document. -/
def LikeOptions.ofTree? : Nat → Tree → Option LikeOptions
  | _ + 1, t => do
    let [case, accent, escape] ←
      t.fieldsOf? ["case_sensitive", "accent_sensitive", "escape"] | none
    return ⟨← (← case).bool?, ← (← accent).bool?, ← (← escape).char?⟩
  | _, _ => none

/-- The join condition of a document. -/
def JoinCondition.ofTree? : Nat → Tree → Option JoinCondition
  | depth + 1, t => do
    let [left, op, right] ← t.fieldsOf? ["left", "op", "right"] | none
    return ⟨← (← left).text?, ← (← op).operator? depth, ← (← right).text?⟩
  | _, _ => none

/-- The term of an ON clause of a document. -/
def JoinTerm.ofTree? : Nat → Tree → Option JoinTerm
  | depth + 1, t => do
    let [condition, logic] ← t.fieldsOf? ["condition", "logic"] | none
    return ⟨← JoinCondition.ofTree? depth (← condition), ← Tree.connectiveOrNull? depth logic⟩
  | _, _ => none

/-! ## Parts with nested queries -/

mutual

/-- The query of a document. -/
def Query.ofTree? : Nat → Tree → Option Query
  | depth + 3, t => do
    let [source, projection, joins, conditions, grouping, ordering] ← t.fieldsOf?
      ["from", "projection", "joins", "conditions", "grouping", "ordering"] | none
    let source ← Source.ofTree? (depth + 2) (← source)
    let projection ← Projection.ofTree? (depth + 2) (← projection)
    let [joins] ← (← joins).fieldsOf? ["joins"] | none
    let joins ← (← (← joins).list?).mapM (Join.ofTree? depth)
    let [conditions] ← (← conditions).fieldsOf? ["predicates"] | none
    let conditions ← (← (← conditions).list?).mapM (Predicate.ofTree? depth)
    let [columns, having] ← (← grouping).fieldsOf? ["columns", "having"] | none
    let columns ← (← columns).texts?
    let having ← (← (← having).list?).mapM (HavingEntry.ofTree? depth)
    let ordering ← OrderTerm.listOfTree? (depth + 2) (← ordering)
    return ⟨source, projection, joins, conditions, ⟨columns, having⟩, ordering⟩
  | _, _ => none

/-- The source of a document. -/
def Source.ofTree? : Nat → Tree → Option Source
  | depth + 2, t => do
    let (name, payload) ← t.variant?
    match name with
    | "Table" =>
      let [name, asName] ← payload.fieldsOf? ["name", "alias"] | none
      return .table (← (← name).text?) (← Tree.textOrNull? asName)
    | "Values" =>
      let [rows, aliases, name] ← payload.fieldsOf? ["rows", "aliases", "name"] | none
      let rows ← (← (← rows).itemsWithin? depth).mapM (Tree.valuesWithin? (depth - 1))
      return .values rows (← Tree.textsOrNullWithin? depth aliases) (← (← name).text?)
    | "SubQuery" =>
      let [query, asName] ← payload.fieldsOf? ["query", "alias"] | none
      return .query (← Query.ofTree? depth (← query)) (← Tree.textOrNull? asName)
    | _ => none
  | _, _ => none

/-- The join target of a document. -/
def JoinTarget.ofTree? : Nat → Tree → Option JoinTarget
  | depth + 1, t => do
    let (name, payload) ← t.variant?
    match name with
    | "Table" => return .table (← payload.text?)
    | "SubQuery" => return .query (← Query.ofTree? depth payload)
    | _ => none
  | _, _ => none

/-- The join of a document. -/
def Join.ofTree? : Nat → Tree → Option Join
  | depth + 1, t => do
    let [target, kind, conditions, asName] ←
      t.fieldsOf? ["target", "kind", "conditions", "alias"] | none
    let target ← JoinTarget.ofTree? depth (← target)
    let kind ← JoinKind.ofName? (← (← kind).bare? .json depth)
    let conditions ← (← (← conditions).itemsWithin? depth).mapM (JoinTerm.ofTree? (depth - 1))
    return ⟨target, kind, conditions, ← (← asName).text?⟩
  | _, _ => none

/-- The set of a document. -/
def SetSource.ofTree? : Nat → Tree → Option SetSource
  | depth + 1, t => do
    let (name, payload) ← t.variant?
    match name with
    | "Values" => return .values (← payload.valuesWithin? depth)
    | "Query" => return .query (← Query.ofTree? depth payload)
    | _ => none
  | _, _ => none

/-- The predicate of a document. -/
def Predicate.ofTree? : Nat → Tree → Option Predicate
  | depth + 2, t => do
    let (name, payload) ← t.variant?
    match name with
    | "Comparison" =>
      let [column, op, value, negate] ←
        payload.fieldsOf? ["column", "op", "value", "negate"] | none
      return .comparison (← (← column).text?) (← (← op).operator? depth)
        (← Value.ofTree? (← value)) (← (← negate).bool?)
    | "ColumnComparison" =>
      let [column, op, other, negate] ←
        payload.fieldsOf? ["column", "op", "other", "negate"] | none
      return .columnComparison (← (← column).text?) (← (← op).operator? depth)
        (← (← other).text?) (← (← negate).bool?)
    | "NullCheck" =>
      let [column, negate] ← payload.fieldsOf? ["column", "negate"] | none
      return .nullCheck (← (← column).text?) (← (← negate).bool?)
    | "FullText" =>
      let [column, value, negate] ← payload.fieldsOf? ["column", "value", "negate"] | none
      return .fullText (← (← column).text?) (← (← value).text?) (← (← negate).bool?)
    | "Pattern" =>
      let [column, value, negate, options] ←
        payload.fieldsOf? ["column", "value", "negate", "options"] | none
      return .pattern (← (← column).text?) (← (← value).text?) (← (← negate).bool?)
        (← LikeOptions.ofTree? depth (← options))
    | "InSet" =>
      let [column, source, negate] ← payload.fieldsOf? ["column", "source", "negate"] | none
      return .inSet (← (← column).text?) (← SetSource.ofTree? depth (← source))
        (← (← negate).bool?)
    | "OrGroup" => return .anyOf (← (← payload.list?).mapM (Predicate.ofTree? depth))
    | _ => none
  | _, _ => none

/-- The HAVING entry of a document. -/
def HavingEntry.ofTree? : Nat → Tree → Option HavingEntry
  | depth + 1, t => do
    let [logic, predicate] ← t.fieldsOf? ["logic", "predicate"] | none
    return ⟨← (← logic).connective? depth, ← Predicate.ofTree? depth (← predicate)⟩
  | _, _ => none

end

/-- How deeply the lists and records of a JSON document may be nested. -/
def nestingLimit : Nat := 127

namespace Query

/-- The query as JSON text. -/
def toJson (q : Query) : String :=
  q.tree.json

/-- The query of a JSON text. -/
def ofJson? (text : String) : Option Query := do
  Query.ofTree? nestingLimit (← Tree.ofJson? text)

end Query

end SelectSql
