import SelectSql.Query

/-!
# SelectSql.Query.Same

Equality of queries with the numbers in them compared as numbers: a query that holds
NaN is not the same as itself, and the two zeros are not told apart.
-/

namespace SelectSql

/-- Equality of columns, numbers compared as numbers. -/
def Column.same : Column → Column → Bool
  | .raw sql params standalone, .raw sql' params' standalone' =>
    sql == sql' && Value.allSame params params' && standalone == standalone'
  | c, c' => decide (c = c')

/-- Equality of lists of columns. -/
def Column.allSame : List Column → List Column → Bool
  | [], [] => true
  | c :: cs, c' :: cs' => c.same c' && allSame cs cs'
  | _, _ => false

/-- Equality of matrices. -/
def Source.sameRows : List (List Value) → List (List Value) → Bool
  | [], [] => true
  | row :: rows, row' :: rows' => Value.allSame row row' && sameRows rows rows'
  | _, _ => false

mutual

/-- Equality of queries, numbers compared as numbers. -/
def Query.same : Query → Query → Bool
  | ⟨source, projection, joins, conditions, grouping, ordering⟩,
    ⟨source', projection', joins', conditions', grouping', ordering'⟩ =>
    source.same source'
      && Column.allSame projection.columns projection'.columns
      && projection.distinct == projection'.distinct
      && Join.allSame joins joins'
      && Predicate.allSame conditions conditions'
      && grouping.same grouping'
      && decide (ordering = ordering')
termination_by structural q => q

/-- Equality of sources. -/
def Source.same : Source → Source → Bool
  | .table name asName, .table name' asName' => name == name' && asName == asName'
  | .values rows aliases name, .values rows' aliases' name' =>
    Source.sameRows rows rows' && aliases == aliases' && name == name'
  | .query q asName, .query q' asName' => q.same q' && asName == asName'
  | _, _ => false
termination_by structural s => s

/-- Equality of join targets. -/
def JoinTarget.same : JoinTarget → JoinTarget → Bool
  | .table name, .table name' => name == name'
  | .query q, .query q' => q.same q'
  | _, _ => false
termination_by structural t => t

/-- Equality of joins. -/
def Join.same : Join → Join → Bool
  | ⟨target, kind, conditions, asName⟩, ⟨target', kind', conditions', asName'⟩ =>
    target.same target' && decide (kind = kind') && decide (conditions = conditions')
      && asName == asName'
termination_by structural j => j

/-- Equality of lists of joins. -/
def Join.allSame : List Join → List Join → Bool
  | [], [] => true
  | j :: js, j' :: js' => j.same j' && Join.allSame js js'
  | _, _ => false
termination_by structural js => js

/-- Equality of sets. -/
def SetSource.same : SetSource → SetSource → Bool
  | .values vs, .values vs' => Value.allSame vs vs'
  | .query q, .query q' => q.same q'
  | _, _ => false
termination_by structural s => s

/-- Equality of predicates. -/
def Predicate.same : Predicate → Predicate → Bool
  | .comparison column op value negated, .comparison column' op' value' negated' =>
    column == column' && decide (op = op') && value.same value' && negated == negated'
  | .columnComparison column op other negated, .columnComparison column' op' other' negated' =>
    column == column' && decide (op = op') && other == other' && negated == negated'
  | .nullCheck column negated, .nullCheck column' negated' =>
    column == column' && negated == negated'
  | .fullText column value negated, .fullText column' value' negated' =>
    column == column' && value == value' && negated == negated'
  | .pattern column value negated options, .pattern column' value' negated' options' =>
    column == column' && value == value' && negated == negated' && decide (options = options')
  | .inSet column source negated, .inSet column' source' negated' =>
    column == column' && source.same source' && negated == negated'
  | .anyOf ps, .anyOf ps' => Predicate.allSame ps ps'
  | _, _ => false
termination_by structural p => p

/-- Equality of lists of predicates. -/
def Predicate.allSame : List Predicate → List Predicate → Bool
  | [], [] => true
  | p :: ps, p' :: ps' => p.same p' && Predicate.allSame ps ps'
  | _, _ => false
termination_by structural ps => ps

/-- Equality of groupings. -/
def Grouping.same : Grouping → Grouping → Bool
  | ⟨columns, having⟩, ⟨columns', having'⟩ =>
    columns == columns' && HavingEntry.allSame having having'
termination_by structural g => g

/-- Equality of HAVING chains. -/
def HavingEntry.allSame : List HavingEntry → List HavingEntry → Bool
  | [], [] => true
  | ⟨connective, predicate⟩ :: rest, ⟨connective', predicate'⟩ :: rest' =>
    decide (connective = connective') && predicate.same predicate'
      && HavingEntry.allSame rest rest'
  | _, _ => false
termination_by structural es => es

end

end SelectSql
