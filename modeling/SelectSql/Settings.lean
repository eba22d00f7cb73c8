import SelectSql.Definition.Document

/-!
# SelectSql.Settings

The settings of a connection: where the database is, which engine it is, how its
tables are called, and how many connections may be open.

Design points:

* **The engine is the one that is set, or else the one that the URL names.**
* **The environment overrides the URL of the file**, unless what it holds is blank.
* **Reading does not validate**; `validate` is a step of its own.
-/

namespace SelectSql

/-- The settings of a connection. -/
structure Settings where
  databaseUrl : String := "sqlite::memory:"
  /-- What is put in front of the names of tables. -/
  tableBeginning : String := ""
  dialect : Option Dialect := none
  maxConnections : UInt32 := 5
deriving DecidableEq

namespace Settings

/-- The engine to write statements for. -/
def resolvedDialect (s : Settings) : Dialect :=
  s.dialect.getD (Dialect.ofUrl s.databaseUrl)

/-- Refuses a blank URL, and settings without a connection. -/
def validate (s : Settings) : Except QueryError Unit :=
  if (Text.trim s.databaseUrl).isEmpty then .error (.config "database_url is empty")
  else if s.maxConnections = 0 then .error (.config "max_connections must be at least 1")
  else .ok ()

/-! ## Reading -/

/-- A whole number of 32 bits without a sign. -/
def count? : Tree → Option UInt32
  | .int n => if 0 ≤ n ∧ n < UInt32.size then some (UInt32.ofNat n.toNat) else none
  | _ => none

/-- An engine by its name, in a format. -/
def dialectIn? (fmt : Format) (t : Tree) : Option Dialect := do
  Dialect.ofName? (← t.bare? fmt nestingLimit)

/-- The settings of a document; the URL is required. -/
def ofTree? (fmt : Format) (t : Tree) : Option Settings := do
  let [url, beginning, dialect, connections] ← t.fields? fmt true
    ["database_url", "table_prefix", "dialect", "max_connections"] | none
  return {
    databaseUrl := ← (← url).text?
    tableBeginning := ← Tree.orDefault? Tree.text? "" beginning
    dialect := ← Tree.orNull? (dialectIn? fmt) dialect
    maxConnections := ← Tree.orDefault? count? 5 connections }

/-- The settings of a TOML text. -/
def ofToml (text : String) : Except QueryError Settings :=
  match (Tree.ofToml? text).bind (ofTree? .toml) with
  | some s => .ok s
  | none => .error .toml

/-- The settings with the URL of the environment, if there is one. -/
def withEnvironment (url : Option String) (s : Settings) : Settings :=
  match url with
  | some u => if (Text.trim u).isEmpty then s else { s with databaseUrl := u }
  | none => s

/-- The settings of a file, or the default ones without a file, and of the environment.
A file that cannot be read is given by the reason. -/
def load (file : Option (Except String String)) (url : Option String) :
    Except QueryError Settings :=
  let settings : Except QueryError Settings := match file with
    | none => .ok {}
    | some (.error reason) => .error (.io reason)
    | some (.ok text) => ofToml text
  settings.map (withEnvironment url)

/-! ## Building -/

/-- The steps that build settings. -/
inductive Step
  | databaseUrl (url : String)
  | tableBeginning (beginning : String)
  | dialect (d : Dialect)
  | maxConnections (n : UInt32)

/-- The settings after a step. -/
def set (s : Settings) : Step → Settings
  | .databaseUrl url => { s with databaseUrl := url }
  | .tableBeginning beginning => { s with tableBeginning := beginning }
  | .dialect d => { s with dialect := some d }
  | .maxConnections n => { s with maxConnections := n }

/-- The default settings after steps, if they are valid. -/
def build (steps : List Step) : Except QueryError Settings :=
  let s := steps.foldl set {}
  s.validate.map fun _ => s

end Settings

end SelectSql
