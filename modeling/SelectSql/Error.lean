/-!
# SelectSql.Error

What can go wrong while a statement is put together, and how it is reported.
-/

namespace SelectSql

/-- The causes of failure. -/
inductive QueryError
  /-- A comparison operator that is not one of the known tokens. -/
  | unsupportedOperator (token : String)
  /-- Join conditions that do not resolve to a list of conditions. -/
  | malformedCondition (detail : String)
  /-- A join whose kind does not allow conditions. -/
  | unsupportedJoin (detail : String)
  /-- A raw fragment with another number of markers than of parameters. -/
  | paramMismatch (markers params : Nat)
  /-- A text that stops following its grammar at a position, in bytes. -/
  | parse (position : Nat) (detail : String)
  /-- No connection to a database. -/
  | connection (detail : String)
  /-- A database that refused a statement. -/
  | execution (detail : String)
  /-- Settings that cannot be used. -/
  | config (detail : String)
  /-- A file that cannot be read. -/
  | io (detail : String)
deriving DecidableEq

/-- The error of a TOML text that cannot be read, or whose contents do not fit. -/
def QueryError.toml : QueryError :=
  .config "TOML parse error"

/-- The text of an error. -/
def QueryError.message : QueryError → String
  | .unsupportedOperator token => s!"Unsupported operator: '{token}'"
  | .malformedCondition detail => s!"Malformed join condition: {detail}"
  | .unsupportedJoin detail => s!"Unsupported join: {detail}"
  | .paramMismatch markers params =>
    s!"Raw fragment has {markers} marker(s) but {params} parameter(s)"
  | .parse position detail => s!"Parse error at position {position}: {detail}"
  | .connection detail => s!"Connection error: {detail}"
  | .execution detail => s!"Execution error: {detail}"
  | .config detail => s!"Configuration error: {detail}"
  | .io detail => s!"IO error: {detail}"

end SelectSql
