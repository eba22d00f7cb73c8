import SelectSql.Dialect

/-!
# SelectSql.Notice

What the library reports about its own work, without failing.
-/

namespace SelectSql

/-- How important a notice is. -/
inductive Level
  | trace | debug | info | warn
deriving DecidableEq

/-- The name of a level. -/
def Level.name : Level → String
  | .trace => "TRACE"
  | .debug => "DEBUG"
  | .info => "INFO"
  | .warn => "WARN"

/-- The things that are reported. -/
inductive Notice
  /-- An OR call has made a group of alternatives of this size. -/
  | folded (members : Nat)
  /-- A raw fragment has another number of markers than of parameters. -/
  | markerMismatch (sql : String) (markers params : Nat)
  /-- HAVING predicates without grouping columns are left out. -/
  | havingDropped (count : Nat)
  /-- A set membership test of a definition cannot be an alternative. -/
  | orIgnored (column : String)
  /-- A statement has been compiled. -/
  | compiled (dialect : Dialect) (sql : String) (params : Nat)
deriving DecidableEq

namespace Notice

/-- The level of a notice. -/
def level : Notice → Level
  | .folded _ => .trace
  | .compiled .. => .debug
  | .markerMismatch .. | .havingDropped _ | .orIgnored _ => .warn

/-- The text of a notice. -/
def message : Notice → String
  | .folded members => s!"folded OR group, {members} member(s)"
  | .markerMismatch sql markers params =>
    s!"raw fragment '{sql}' has {markers} marker(s) but {params} parameter(s)"
  | .havingDropped count => s!"dropping {count} HAVING predicate(s): no GROUP BY columns"
  | .orIgnored column => s!"'or' logic is ignored for set membership on {column}"
  | .compiled dialect sql params => s!"compiled ({dialect.title}): {sql} [{params} param(s)]"

end Notice

end SelectSql
