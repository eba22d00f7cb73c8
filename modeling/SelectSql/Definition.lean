import SelectSql.Query.Call
import SelectSql.Statement

/-!
# SelectSql.Definition

A query as its user writes it down: the table, the columns, the joins and filters, each
with its own small record. A definition becomes a query by the same calls that a
program would make.

Design points:

* **The fields of a filter choose its test.** With a list of values it is a set
  membership test, without a value a NULL check, otherwise a comparison.
* **The calls are made in a fixed order**: columns, joins, filters, groups, HAVING,
  ordering. The first call that is refused is the error of the definition.
-/

namespace SelectSql

namespace Definition

/-- A join, with its ON conditions as texts. -/
structure JoinEntry where
  kind : JoinKind := .inner
  table : String
  asName : String := ""
  on : List String := []

/-- A WHERE or HAVING entry. -/
structure Filter where
  column : String
  op : String := "="
  value : Option Value := none
  values : Option (List Value) := none
  connective : Connective := .and
  negated : Bool := false

/-- An ORDER BY entry. -/
structure OrderEntry where
  column : String
  descending : Bool := false

end Definition

/-- A declarative query. -/
structure Definition where
  table : String
  asName : Option String := none
  distinct : Bool := false
  select : List String := []
  joins : List Definition.JoinEntry := []
  filters : List Definition.Filter := []
  groupBy : List String := []
  having : List Definition.Filter := []
  order : List Definition.OrderEntry := []

namespace Definition

/-- The call of a join entry. -/
def JoinEntry.call (j : JoinEntry) : Call :=
  if j.kind = .cross ∧ j.on = [] then .crossJoin j.table j.asName
  else .join j.kind (.table j.table) (.sequence (j.on.map .text)) j.asName

/-- The call of a WHERE entry. -/
def Filter.call (f : Filter) : Call :=
  match f.values, f.value with
  | some vs, _ => .inSet f.negated f.column (.values vs)
  | none, none => .nullCheck f.connective f.negated f.column
  | none, some v => .compare f.connective f.negated f.column (.token f.op) v

/-- The notices of a WHERE entry: a set membership test is never an alternative. -/
def Filter.notices (f : Filter) : List Notice :=
  if f.values.isSome ∧ f.connective = .or then [.orIgnored f.column] else []

/-- The call of a HAVING entry: a comparison with its value, or with NULL. -/
def Filter.havingCall (f : Filter) : Call :=
  .having f.connective f.column (.token f.op) (f.value.getD .null)

/-- The calls of a definition, each with the notices that come before it. -/
def steps (d : Definition) : List (List Notice × Call) :=
  (if d.distinct then [([], Call.distinct)] else [])
    ++ d.select.map (fun name => ([], .select name))
    ++ d.joins.map (fun j => ([], j.call))
    ++ d.filters.map (fun f => (f.notices, f.call))
    ++ (if d.groupBy.isEmpty then [] else [([], .groupBy d.groupBy)])
    ++ d.having.map (fun f => ([], f.havingCall))
    ++ d.order.map (fun o => ([], .order (!o.descending) [o.column]))

/-- The query of a definition, or why there is none. -/
def toQuery (d : Definition) : Except QueryError Query :=
  (Query.table d.table d.asName).runAll (d.steps.map Prod.snd)

/-- The notices of steps, up to the first call that is refused. -/
def noticesFrom (q : Query) : List (List Notice × Call) → List Notice
  | [] => []
  | (before, c) :: rest =>
    before ++ q.callNotices c ++
      match q.call c with
      | .ok q => noticesFrom q rest
      | .error _ => []

/-- What there is to report about making the query of a definition. -/
def notices (d : Definition) : List Notice :=
  noticesFrom (Query.table d.table d.asName) d.steps

end Definition

end SelectSql
