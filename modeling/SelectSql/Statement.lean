import SelectSql.Draft
import SelectSql.Predicate

/-!
# SelectSql.Statement

The text of a query. Every clause writes itself into a draft, in the order of the
text: projection, source, joins, conditions, groups, ordering. Nested queries are
written where they stand, so their values are numbered along with the others.

Design points:

* **Alternatives stand in parentheses**, except for a group that is the whole WHERE
  clause.
* **A join has its runs of blanks collapsed** after its target is written, nested
  query included; literals are left alone.
* **A clause that is blank is left out.** In particular there is no WHERE without the
  text of a condition.
* **HAVING without GROUP BY is dropped** and reported; nothing of it is bound.
-/

namespace SelectSql

/-! ## Parts without nested queries -/

/-- The text of a column. -/
def Column.write (r : Rendering) : Column → Writing String
  | .raw sql params _ => r.splice sql params
  | c => return c.text

/-- The texts of columns. -/
def Column.writeAll (r : Rendering) : List Column → Writing (List String)
  | [] => return []
  | c :: cs => do
    let text ← c.write r
    return text :: (← writeAll r cs)

/-- The list of columns behind SELECT. -/
def Projection.write (r : Rendering) (p : Projection) : Writing String := do
  let distinct := if p.distinct then "DISTINCT " else ""
  if p.columns.isEmpty then return distinct ++ "*"
  else return distinct ++ ", ".intercalate (← Column.writeAll r p.columns)

/-- The rows of a matrix, every value and every row in parentheses. -/
def Source.writeRows (r : Rendering) : List (List Value) → Writing (List String)
  | [] => return []
  | row :: rows => do
    let cells ← r.bindAll row
    let text := "(" ++ ", ".intercalate (cells.map fun c => "(" ++ c ++ ")") ++ ")"
    return text :: (← writeRows r rows)

/-- The ON clause of a join, a blank in front of every part. -/
def JoinTerm.onClause (terms : List JoinTerm) : String :=
  if terms.isEmpty then ""
  else " ON" ++ String.join (terms.map fun t =>
    (match t.connective with
      | some word => " " ++ word.keyword
      | none => "") ++ " " ++ t.condition.text)

/-- The ORDER BY clause, or nothing. -/
def OrderTerm.clause (terms : List OrderTerm) : String :=
  if terms.isEmpty then "" else "ORDER BY " ++ ", ".intercalate (terms.map OrderTerm.text)

/-- The word in front of a negated comparison. -/
def Predicate.not (negated : Bool) : String :=
  if negated then "NOT " else ""

/-- The operator of a set membership test. -/
def Predicate.membership (negated : Bool) : String :=
  if negated then "NOT IN" else "IN"

/-- The clauses of a statement put together: blank ones are left out. -/
def Query.assemble (projection source joins conditions grouping ordering : String) : String :=
  let clauses := ["SELECT " ++ projection, "FROM " ++ source, joins,
    if conditions.isEmpty then "" else "WHERE " ++ conditions, grouping, ordering]
  " ".intercalate ((clauses.map Text.trim).filter fun c => !c.isEmpty)

/-! ## Parts with nested queries -/

mutual

/-- The text of a query. -/
def Query.write (r : Rendering) : Query → Writing String
  | ⟨source, projection, joins, conditions, grouping, ordering⟩ => do
    let p ← projection.write r
    let s ← source.write r
    let j ← Join.writeAll r joins
    let c ← Predicate.writeConjunction r conditions
    let g ← grouping.write r
    return Query.assemble p s (" ".intercalate j) c g (OrderTerm.clause ordering)

/-- The text of a source. -/
def Source.write (r : Rendering) : Source → Writing String
  | .table name asName => return match asName with
    | some a => "\x7b" ++ name ++ "\x7d " ++ a
    | none => "\x7b" ++ name ++ "\x7d"
  | .values rows aliases name => do
    let rows ← Source.writeRows r rows
    let matrix := "VALUES(\n" ++ ",\n".intercalate rows ++ "\n)"
    return match aliases with
    | some names => matrix ++ " AS " ++ name ++ "(" ++ ",".intercalate names ++ ")"
    | none => matrix
  | .query q asName => do
    let text ← q.write r
    return match asName with
    | some a => "(" ++ text ++ ") " ++ a
    | none => "(" ++ text ++ ")"

/-- The text of what is joined. -/
def JoinTarget.write (r : Rendering) : JoinTarget → Writing String
  | .table name => return "\x7b" ++ name ++ "\x7d"
  | .query q => do
    let text ← q.write r
    return "(" ++ text ++ ")"

/-- The text of a join. -/
def Join.write (r : Rendering) : Join → Writing String
  | ⟨target, kind, conditions, asName⟩ => do
    let t ← target.write r
    return Fragment.collapse
      (kind.keyword ++ " JOIN " ++ t ++ " " ++ asName ++ JoinTerm.onClause conditions)

/-- The texts of joins. -/
def Join.writeAll (r : Rendering) : List Join → Writing (List String)
  | [] => return []
  | j :: js => do
    let text ← j.write r
    return text :: (← Join.writeAll r js)

/-- The text of a predicate inside a larger condition. -/
def Predicate.write (r : Rendering) : Predicate → Writing String
  | .comparison column op value negated => do
    let v ← r.bind value
    return Predicate.not negated ++ column ++ " " ++ op.symbol ++ " " ++ v
  | .columnComparison column op other negated =>
    return Predicate.not negated ++ column ++ " " ++ op.symbol ++ " " ++ other
  | .nullCheck column negated =>
    return column ++ (if negated then " IS NOT NULL" else " IS NULL")
  | .fullText column value negated => do
    let v ← r.bind (.text value)
    return Predicate.not negated ++ r.dialect.compareText column value.length ++ " = " ++ v
  | .pattern column value negated options => do
    let v ← r.bind (.text value)
    return r.dialect.like column v options negated
  | .inSet _ (.values []) negated => return if negated then "1 = 1" else "1 = 0"
  | .inSet column source negated => do
    let s ← source.write r
    return column ++ " " ++ Predicate.membership negated ++ " (" ++ s ++ ")"
  | .anyOf ps => do
    let texts ← Predicate.writeAll r ps
    return "(" ++ " OR ".intercalate texts ++ ")"

/-- The text of the members of a set, or of the query that selects them. -/
def SetSource.write (r : Rendering) : SetSource → Writing String
  | .values vs => do
    let texts ← r.bindAll vs
    return ", ".intercalate texts
  | .query q => q.write r

/-- The texts of predicates. -/
def Predicate.writeAll (r : Rendering) : List Predicate → Writing (List String)
  | [] => return []
  | p :: ps => do
    let text ← p.write r
    return text :: (← Predicate.writeAll r ps)

/-- The text of predicates combined with AND. A single group of alternatives is the whole
condition and stands without parentheses. -/
def Predicate.writeConjunction (r : Rendering) : List Predicate → Writing String
  | [] => return ""
  | [.anyOf ps] => do
    let texts ← Predicate.writeAll r ps
    return " OR ".intercalate texts
  | p :: ps => do
    let text ← p.write r
    let texts ← Predicate.writeAll r ps
    return " AND ".intercalate (text :: texts)

/-- The GROUP BY and HAVING clauses, or nothing. -/
def Grouping.write (r : Rendering) : Grouping → Writing String
  | ⟨columns, having⟩ =>
    if columns.isEmpty then do
      if !having.isEmpty then modify (·.note (.havingDropped having.length))
      return ""
    else do
      let chain ← HavingEntry.writeChain r true having
      return "GROUP BY " ++ ", ".intercalate columns ++ chain

/-- The chain of HAVING predicates: the first behind the keyword, the others behind the
words that tie them to it. -/
def HavingEntry.writeChain (r : Rendering) : Bool → List HavingEntry → Writing String
  | _, [] => return ""
  | first, ⟨connective, predicate⟩ :: rest => do
    let word := if first then "HAVING" else connective.keyword
    let text ← predicate.write r
    return " " ++ word ++ " " ++ text ++ (← HavingEntry.writeChain r false rest)

end

/-- The JOIN clauses, one behind the other. -/
def Join.writeClause (r : Rendering) (js : List Join) : Writing String := do
  return " ".intercalate (← Join.writeAll r js)

/-- The text of alternatives without parentheses. -/
def Predicate.writeAlternatives (r : Rendering) (ps : List Predicate) : Writing String := do
  return " OR ".intercalate (← Predicate.writeAll r ps)

/-! ## Compiling -/

/-- A statement with the values of its placeholders, in order. -/
structure Compiled where
  sql : String
  params : List Value
deriving DecidableEq

/-- Writes something into a fresh draft and gives the text and its values. -/
def Writing.compile (w : Writing String) : Compiled :=
  let (sql, d) := w.run {}
  ⟨sql, d.bound⟩

/-- What there is to report about writing something. -/
def Writing.notices (w : Writing String) : List Notice :=
  (w.run {}).2.notices

namespace Query

/-- The statement with bound values. -/
def compile (q : Query) (d : Dialect) : Compiled :=
  (q.write ⟨d, .bound⟩).compile

/-- The statement with its values written inline. -/
def inline (q : Query) (d : Dialect) : String :=
  ((q.write ⟨d, .inline⟩).compile).sql

/-- What there is to report about compiling: the notices of writing, and the result. -/
def compileNotices (q : Query) (d : Dialect) : List Notice :=
  let c := q.compile d
  (q.write ⟨d, .bound⟩).notices ++ [.compiled d c.sql c.params.length]

end Query

end SelectSql
