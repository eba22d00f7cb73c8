import SelectSql.Fragment
import SelectSql.Notice
import SelectSql.Predicate

/-!
# SelectSql.Query.Call

Building a query step by step. A `Call` is a request of the caller with its arguments as
they were given; the query is changed in place.

Design points:

* **A call works on what stands there, and may fail** (`Building`). What it has done
  before it fails stays done: the query is there behind a refused call as well
  (`Query.after`), and a caller may go on with it (`Query.run`).
* **A call that may fail judges its arguments first.** Only then it adds something, so a
  refused call changes nothing (`Query.after_of_error`), although its type would allow it.
* **An OR call joins the predicate before it.** The two become a group of
  alternatives, or the new one is added to the group that stands there
  (`Predicate.push`).
-/

namespace SelectSql

/-! ## Conditions -/

namespace Predicate

/-- Adds a predicate to the conditions: as one more operand of the AND, or as an
alternative to the last one. -/
def push (connective : Connective) (p : Predicate) : List Predicate → List Predicate
  | [] => [p]
  | [last] =>
    match connective with
    | .and => [last, p]
    | .or => [last.orElse p]
  | q :: r :: rest => q :: push connective p (r :: rest)

/-- Adds predicates one after the other. -/
def pushAll (pushes : List (Connective × Predicate)) (ps : List Predicate) : List Predicate :=
  pushes.foldl (fun ps c => push c.1 c.2 ps) ps

/-- The notice of adding a predicate: the size of the group that it makes. -/
def pushNotices (connective : Connective) (ps : List Predicate) : List Notice :=
  match connective, ps.getLast? with
  | .or, some last => [.folded (last.alternatives.length + 1)]
  | _, _ => []

/-- The conditions that a row is active at a time: both ends of its span are inclusive,
and an end that is NULL is open. -/
def activeAt (start stop : String) (time : Int64) : List (Connective × Predicate) := [
  (.and, .nullCheck start false),
  (.or, compare start .le (.int time) false),
  (.and, .nullCheck stop false),
  (.or, compare stop .ge (.int time) false)]

end Predicate

/-! ## Calls -/

/-- A comparison operator as an argument: a token to be read, or the operator itself. -/
inductive OperatorArg
  | token (t : String)
  | known (op : Operator)

/-- The operator of an argument. -/
def OperatorArg.resolve : OperatorArg → Except QueryError Operator
  | .token t => Operator.ofToken t
  | .known op => .ok op

/-- The calls that build a query. -/
inductive Call
  | selectAll
  | select (name : String)
  | selectAs (name asName : String)
  | selectColumn (table name : String) (asName : Option String)
  | selectRaw (sql : String) (params : List Value)
  /-- Without an operand the rows are counted. -/
  | selectCount (operand asName : Option String)
  | selectAggregate (function : Aggregate) (name : String) (asName : Option String)
  | distinct
  | compare (connective : Connective) (negated : Bool) (column : String) (op : OperatorArg)
      (value : Value)
  | compareColumns (connective : Connective) (column : String) (op : OperatorArg)
      (other : String)
  | nullCheck (connective : Connective) (negated : Bool) (column : String)
  | inSet (negated : Bool) (column : String) (source : SetSource)
  | like (column value : String) (options : LikeOptions) (negated : Bool)
  | fullText (negated : Bool) (column value : String)
  | activeAt (start stop : String) (time : Int64)
  | predicate (connective : Connective) (p : Predicate)
  | join (kind : JoinKind) (target : JoinTarget) (on : ConditionSpec) (asName : String)
  | crossJoin (table asName : String)
  | groupBy (columns : List String)
  | having (connective : Connective) (column : String) (op : OperatorArg) (value : Value)
  | order (ascending : Bool) (columns : List String)
  | clearOrder

/-- How a join target is named in an error. -/
def JoinTarget.description : JoinTarget → String
  | .table name => "\x7b" ++ name ++ "\x7d"
  | .query _ => "a nested query"

/-- The error of a cross join with conditions. -/
def JoinTarget.crossJoinError (target : JoinTarget) : QueryError :=
  .unsupportedJoin s!"CROSS JOIN on {target.description} cannot carry ON conditions"

/-! ## The work of a call -/

/-- A query while it is built, with what was reported so far. -/
structure Builder where
  query : Query
  notices : List Notice := []

/-- Work on a query. It may fail, and what it has done before it fails stays done. -/
abbrev Building := ExceptT QueryError (StateM Builder)

namespace Building

/-- Changes the query. -/
def edit (f : Query → Query) : Building Unit :=
  modify fun b => { b with query := f b.query }

/-- Adds a column. -/
def addColumn (c : Column) : Building Unit :=
  edit fun q =>
    { q with projection := { q.projection with columns := q.projection.columns ++ [c] } }

/-- Adds a join. -/
def addJoin (j : Join) : Building Unit :=
  edit fun q => { q with joins := q.joins ++ [j] }

/-- Adds a predicate to the conditions, and reports the group that it makes. -/
def push (connective : Connective) (p : Predicate) : Building Unit :=
  modify fun b =>
    { query := { b.query with conditions := Predicate.push connective p b.query.conditions }
      notices := b.notices ++ Predicate.pushNotices connective b.query.conditions }

/-- Adds predicates one after the other. -/
def pushAll : List (Connective × Predicate) → Building Unit
  | [] => pure ()
  | (connective, p) :: pushes => do
    push connective p
    pushAll pushes

/-- Adds a HAVING predicate. -/
def addHaving (entry : HavingEntry) : Building Unit :=
  edit fun q =>
    { q with grouping := { q.grouping with having := q.grouping.having ++ [entry] } }

/-- A raw column, with a value for each of its markers. -/
def selectRaw (sql : String) (params : List Value) : Building Unit := do
  let markers := Fragment.countMarkers sql
  if markers ≠ params.length then
    throw (.paramMismatch markers params.length)
  addColumn (.raw sql params false)

/-- The comparison of a column with a value. -/
def compare (connective : Connective) (negated : Bool) (column : String) (op : OperatorArg)
    (value : Value) : Building Unit := do
  let op ← op.resolve
  push connective (Predicate.compare column op value negated)

/-- The comparison of two columns. -/
def compareColumns (connective : Connective) (column : String) (op : OperatorArg)
    (other : String) : Building Unit := do
  let op ← op.resolve
  push connective (.columnComparison column op other false)

/-- A join with conditions, which a cross join does not have. -/
def join (kind : JoinKind) (target : JoinTarget) (on : ConditionSpec) (asName : String) :
    Building Unit := do
  if kind = .cross then
    throw target.crossJoinError
  let terms ← on.resolve
  addJoin ⟨target, kind, terms, asName⟩

/-- A HAVING predicate that compares a column with a value. -/
def having (connective : Connective) (column : String) (op : OperatorArg) (value : Value) :
    Building Unit := do
  let op ← op.resolve
  addHaving ⟨connective, Predicate.compare column op value false⟩

end Building

/-- The work of a call. -/
def Call.perform : Call → Building Unit
  | .selectAll =>
    .edit fun q => { q with projection := { q.projection with columns := [Column.star] } }
  | .select name => .addColumn (.named name none none)
  | .selectAs name asName => .addColumn (.named name none (some asName))
  | .selectColumn table name asName => .addColumn (.named name (some table) asName)
  | .selectRaw sql params => .selectRaw sql params
  | .selectCount operand asName => .addColumn (.aggregate .count (operand.getD "1") asName)
  | .selectAggregate function name asName => .addColumn (.aggregate function name asName)
  | .distinct => .edit fun q => { q with projection := { q.projection with distinct := true } }
  | .compare connective negated column op value => .compare connective negated column op value
  | .compareColumns connective column op other => .compareColumns connective column op other
  | .nullCheck connective negated column => .push connective (.nullCheck column negated)
  | .inSet negated column source => .push .and (.inSet column source negated)
  | .like column value options negated => .push .and (.pattern column value negated options)
  | .fullText negated column value => .push .and (.fullText column value negated)
  | .activeAt start stop time => .pushAll (Predicate.activeAt start stop time)
  | .predicate connective p => .push connective p
  | .join kind target on asName => .join kind target on asName
  | .crossJoin table asName => .addJoin ⟨.table table, .cross, [], asName⟩
  | .groupBy columns =>
    .edit fun q => { q with grouping := { q.grouping with columns := columns } }
  | .having connective column op value => .having connective column op value
  | .order ascending columns =>
    .edit fun q => { q with ordering := q.ordering ++ columns.map (⟨·, ascending⟩) }
  | .clearOrder => .edit fun q => { q with ordering := [] }

namespace Query

/-- What a call returns, and what it leaves behind. -/
def build (q : Query) (c : Call) : Except QueryError Unit × Builder :=
  StateT.run c.perform.run { query := q }

/-- The query behind a call, also behind one that is refused. -/
def after (q : Query) (c : Call) : Query :=
  (q.build c).2.query

/-- The query after a call, or why the call is refused. -/
def call (q : Query) (c : Call) : Except QueryError Query :=
  (q.build c).1.map fun _ => q.after c

/-- What there is to report about a call. -/
def callNotices (q : Query) (c : Call) : List Notice :=
  (q.build c).2.notices

/-- The query after a run of calls that goes on behind those that are refused, with what
they have left. -/
def run (q : Query) (calls : List Call) : Query :=
  calls.foldl after q

/-- The query after a run of calls that stops at the first one that is refused. -/
def runAll (q : Query) : List Call → Except QueryError Query
  | [] => .ok q
  | c :: cs =>
    match q.call c with
    | .ok q => runAll q cs
    | .error e => .error e

end Query

end SelectSql
