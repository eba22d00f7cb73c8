import SelectSql.Data.Toml.Reader
import SelectSql.Definition
import SelectSql.Query.OfDocument

/-!
# SelectSql.Definition.Document

Definitions as documents, in JSON and in TOML. Only the table of a definition or of a
join and the column of a filter or of an ordering are required; everything else has
a default.
-/

namespace SelectSql

namespace Tree

/-- A field that has a default. -/
def orDefault? {α : Type} (read? : Tree → Option α) (default : α) : Option Tree → Option α
  | none => some default
  | some t => read? t

/-- A field that may be missing or null. -/
def orNull? {α : Type} (read? : Tree → Option α) : Option Tree → Option (Option α)
  | none => some none
  | some .null => some none
  | some t => (read? t).map some

/-- A connective by its name, in a format. -/
def connectiveIn? (fmt : Format) (t : Tree) : Option Connective := do
  Connective.ofName? (← t.bare? fmt nestingLimit)

/-- A kind of join by its name, in a format. -/
def joinKindIn? (fmt : Format) (t : Tree) : Option JoinKind := do
  JoinKind.ofName? (← t.bare? fmt nestingLimit)

end Tree

namespace Definition

/-! ## Reading -/

/-- The join entry of a document. -/
def JoinEntry.ofTree? (fmt : Format) (t : Tree) : Option JoinEntry := do
  let [kind, table, asName, on] ← t.fields? fmt true ["kind", "table", "alias", "on"] | none
  return {
    kind := ← Tree.orDefault? (Tree.joinKindIn? fmt) .inner kind
    table := ← (← table).text?
    asName := ← Tree.orDefault? Tree.text? "" asName
    on := ← Tree.orDefault? Tree.texts? [] on }

/-- The filter of a document. -/
def Filter.ofTree? (fmt : Format) (t : Tree) : Option Filter := do
  let [column, op, value, values, logic, negate] ←
    t.fields? fmt true ["column", "op", "value", "values", "logic", "negate"] | none
  return {
    column := ← (← column).text?
    op := ← Tree.orDefault? Tree.text? "=" op
    value := ← Tree.orNull? Value.ofTree? value
    values := ← Tree.orNull? Value.listOfTree? values
    connective := ← Tree.orDefault? (Tree.connectiveIn? fmt) .and logic
    negated := ← Tree.orDefault? Tree.bool? false negate }

/-- The ordering of a document. -/
def OrderEntry.ofTree? (fmt : Format) (t : Tree) : Option OrderEntry := do
  let [column, desc] ← t.fields? fmt true ["column", "desc"] | none
  return {
    column := ← (← column).text?
    descending := ← Tree.orDefault? Tree.bool? false desc }

/-- A list of entries of a document. -/
def listOfTree? {α : Type} (item? : Tree → Option α) (t : Tree) : Option (List α) := do
  (← t.list?).mapM item?

/-- The definition of a document. -/
def ofTree? (fmt : Format) (t : Tree) : Option Definition := do
  let [table, asName, distinct, select, join, filters, groupBy, having, order] ←
    t.fields? fmt true
      ["table", "alias", "distinct", "select", "join", "where", "group_by", "having", "order"]
    | none
  return {
    table := ← (← table).text?
    asName := ← Tree.textOrNull? asName
    distinct := ← Tree.orDefault? Tree.bool? false distinct
    select := ← Tree.orDefault? Tree.texts? [] select
    joins := ← Tree.orDefault? (listOfTree? (JoinEntry.ofTree? fmt)) [] join
    filters := ← Tree.orDefault? (listOfTree? (Filter.ofTree? fmt)) [] filters
    groupBy := ← Tree.orDefault? Tree.texts? [] groupBy
    having := ← Tree.orDefault? (listOfTree? (Filter.ofTree? fmt)) [] having
    order := ← Tree.orDefault? (listOfTree? (OrderEntry.ofTree? fmt)) [] order }

/-- The definition of a JSON text. -/
def ofJson? (text : String) : Option Definition := do
  ofTree? .json (← Tree.ofJson? text)

/-- The definition of a TOML text. -/
def ofToml (text : String) : Except QueryError Definition :=
  match (Tree.ofToml? text).bind (ofTree? .toml) with
  | some d => .ok d
  | none => .error .toml

/-! ## Writing -/

/-- The document of a join entry. -/
def JoinEntry.tree (j : JoinEntry) : Tree :=
  .record [("kind", .text j.kind.name), ("table", .text j.table), ("alias", .text j.asName),
    ("on", .ofTexts j.on)]

/-- The document of a filter. -/
def Filter.tree (f : Filter) : Tree :=
  .record [("column", .text f.column), ("op", .text f.op),
    ("value", match f.value with
      | some v => v.tree
      | none => .null),
    ("values", match f.values with
      | some vs => .list (vs.map Value.tree)
      | none => .null),
    ("logic", .text f.connective.name), ("negate", .bool f.negated)]

/-- The document of an ordering. -/
def OrderEntry.tree (o : OrderEntry) : Tree :=
  .record [("column", .text o.column), ("desc", .bool o.descending)]

/-- The document of a definition, with all its fields. -/
def tree (d : Definition) : Tree :=
  .record [("table", .text d.table), ("alias", .ofText? d.asName), ("distinct", .bool d.distinct),
    ("select", .ofTexts d.select), ("join", .list (d.joins.map JoinEntry.tree)),
    ("where", .list (d.filters.map Filter.tree)), ("group_by", .ofTexts d.groupBy),
    ("having", .list (d.having.map Filter.tree)), ("order", .list (d.order.map OrderEntry.tree))]

end Definition

end SelectSql
