import SelectSql.Query

/-!
# SelectSql.Dialect

The database engines that statements are written for, and the parts of SQL in which
they differ: placeholders, truth values, full text comparison and pattern matching.

Design points:

* **The escape character of a pattern is a literal of one character.** In MySQL the
  backslash escapes inside literals as well, so there it is written twice, and any
  other character stands as it is.
* **Only the engines with numbered placeholders write the number.**
-/

namespace SelectSql

/-- The engines. `generic` is portable SQL. -/
inductive Dialect
  | generic | postgres | mySql | sqlite | sqlServer
deriving DecidableEq

namespace Dialect

/-- All engines. -/
def all : List Dialect := [.generic, .postgres, .mySql, .sqlite, .sqlServer]

/-- The name in documents and on the command line. -/
def name : Dialect → String
  | .generic => "generic"
  | .postgres => "postgres"
  | .mySql => "mysql"
  | .sqlite => "sqlite"
  | .sqlServer => "sqlserver"

/-- The name in log entries. -/
def title : Dialect → String
  | .generic => "Generic"
  | .postgres => "Postgres"
  | .mySql => "MySql"
  | .sqlite => "Sqlite"
  | .sqlServer => "SqlServer"

/-- The engine of a name. -/
def ofName? (name : String) : Option Dialect :=
  all.find? fun d => d.name == name

/-- The engine of a connection URL, by its scheme: what stands before the first colon,
the case of its letters ignored. -/
def ofUrl (url : String) : Dialect :=
  match String.ofList ((url.toList.takeWhile (· != ':')).map Char.toLower) with
  | "postgres" | "postgresql" => .postgres
  | "mysql" | "mariadb" => .mySql
  | "sqlite" => .sqlite
  | "mssql" | "sqlserver" => .sqlServer
  | _ => .generic

/-! ## Values -/

/-- The placeholder of the parameter with a number, counted from one. -/
def placeholder (d : Dialect) (index : Nat) : String :=
  match d with
  | .postgres => s!"${index}"
  | .sqlServer => s!"@p{index}"
  | .generic | .mySql | .sqlite => "?"

/-- A truth value in SQL. -/
def boolLiteral (d : Dialect) (b : Bool) : String :=
  match d with
  | .postgres => Value.boolText b
  | _ => if b then "1" else "0"

/-- A value written inline. -/
def literal (d : Dialect) : Value → String
  | .bool b => d.boolLiteral b
  | v => v.display

/-! ## Text matching -/

/-- The left side of a full text comparison with a text of some length. -/
def compareText (d : Dialect) (column : String) (length : Nat) : String :=
  match d with
  | .sqlServer => s!"CAST({column} AS NVARCHAR({max length 1}))"
  | _ => column

/-- The clause that names the escape character of a pattern. -/
def escapeClause (escape : Char) : String :=
  s!"ESCAPE {Text.Quoted.quote (String.singleton escape)}"

/-- The literal of the escape character in MySQL. -/
def mySqlEscape (escape : Char) : String :=
  if escape = '\\' then "'\\\\'" else String.ofList ['\'', escape, '\'']

/-- The collation that matches as the options ask for, in MySQL. -/
def mySqlCollation (o : LikeOptions) : String :=
  if o.caseSensitive then "utf8mb4_bin"
  else if o.accentSensitive then "utf8mb4_0900_as_ci"
  else "utf8mb4_0900_ai_ci"

/-- A column matched with a pattern that has been written already. -/
def like (d : Dialect) (column pattern : String) (o : LikeOptions) (negated : Bool) : String :=
  let not := if negated then "NOT " else ""
  match d with
  | .generic | .sqlite =>
    if o.caseSensitive then s!"{column} {not}LIKE {pattern} {escapeClause o.escape}"
    else s!"LOWER({column}) {not}LIKE LOWER({pattern}) {escapeClause o.escape}"
  | .mySql =>
    s!"{column} {not}LIKE {pattern} COLLATE {mySqlCollation o} ESCAPE {mySqlEscape o.escape}"
  | .postgres =>
    let op := if o.caseSensitive then "LIKE" else "ILIKE"
    let side (text : String) := if o.accentSensitive then text else s!"unaccent({text})"
    s!"{side column} {not}{op} {side pattern} {escapeClause o.escape}"
  | .sqlServer =>
    let case := if o.caseSensitive then "CS" else "CI"
    let accent := if o.accentSensitive then "AS" else "AI"
    s!"{column} COLLATE Latin1_General_{case}_{accent} {not}LIKE {pattern} {escapeClause o.escape}"

end Dialect

end SelectSql
