import SelectSql.CommandLine.Arguments
import SelectSql.CommandLine.FileTree
import SelectSql.Settings
import SelectSql.Text.Plain

/-!
# SelectSql.CommandLine

The command: it reads a definition and prints its statement, lists the operators, or
explains itself. A run is a function of the arguments, the files and the environment.

Design points:

* **The order of the steps decides which of several errors is reported**: reading the
  definition, making its query, loading and validating the settings.
* **Statements are printed, not executed.** Executing needs a connection to a database,
  which this library does not provide.
-/

namespace SelectSql.CommandLine

/-- What a run leaves behind. -/
structure Outcome where
  exitCode : Nat
  stdout : String
  stderr : String

/-- A run that has printed lines and ended well. -/
def Outcome.success (lines : List String) : Outcome :=
  ⟨0, String.join (lines.map (· ++ "\n")), ""⟩

/-- A run that has printed lines without what controls a terminal, and ended well. -/
def Outcome.plainSuccess (lines : List String) : Outcome :=
  ⟨0, Text.Plain.plain (String.join (lines.map (· ++ "\n"))), ""⟩

/-- A run that has printed lines and failed for a reason. -/
def Outcome.failure (lines : List String) (reason : String) : Outcome :=
  ⟨1, String.join (lines.map (· ++ "\n")), "Error: " ++ reason ++ "\n"⟩

/-- The reason of an error. For a file it is given twice: as that of the error, and as that
of its cause. -/
def reason : QueryError → String
  | .io detail => (QueryError.io detail).message ++ ": " ++ detail
  | e => e.message

/-- What a run can see: the files, the settings file that is read unless another one is
asked for, and the database URL of the environment. -/
structure Surroundings where
  read : String → Content
  settings : Option Content
  url : Option String

/-- The surroundings in a directory of files that is the directory of settings as well. -/
def Surroundings.ofFiles (files : List (String × String)) (url : Option String) :
    Surroundings :=
  let t := FileTree.ofList files
  ⟨t.read, Content.ifPresent (t.read "sqlweave/config.toml"), url⟩

/-! ## Texts -/

/-- A short introduction. -/
def overview : List String := [
  "sqlweave: composable SELECT queries",
  "",
  "Usage: sqlweave <DEFINITION> [OPTIONS]",
  "",
  "Try: sqlweave --help"]

/-- The operators and what they mean. -/
def operatorTable : List (String × String) := [
  ("=", "Equal"),
  ("<>, !=", "Not equal"),
  (">", "Greater than"),
  (">=", "Greater than or equal"),
  ("<", "Less than"),
  ("<=", "Less than or equal"),
  ("LIKE", "Pattern match"),
  ("NOT LIKE", "Negated pattern match"),
  ("ILIKE", "Case-insensitive pattern match"),
  ("NOT ILIKE", "Negated case-insensitive pattern match")]

/-- A line of the list of operators. -/
def operatorLine (token meaning : String) : String :=
  token ++ "".pushn ' ' (12 - token.length) ++ " " ++ meaning

/-- The list of operators. -/
def operators : List String :=
  ["Comparison operators", "", operatorLine "Token" "Meaning", "".pushn '─' 50]
    ++ operatorTable.map (fun o => operatorLine o.1 o.2)
    ++ ["", "Tokens are case-insensitive."]

/-- An option as it is explained: its short name, its long name, the name of its value,
and what it means. -/
structure OptionEntry where
  short : Option String
  long : String
  value : Option String
  meaning : String

/-- The options; the meaning of one of them shows the URL of the environment. -/
def optionTable (url : Option String) : List OptionEntry := [
  ⟨some "-d", "--dialect", some "<DIALECT>",
    "Dialect to compile for (defaults to the configured one) " ++
      "[possible values: generic, postgres, mysql, sqlite, sqlserver]"⟩,
  ⟨none, "--inline", none, "Render values inline instead of binding them"⟩,
  ⟨some "-e", "--execute", none, "Execute the query and print the rows"⟩,
  ⟨some "-f", "--format", some "<FORMAT>",
    "Output format [default: table] [possible values: table, json]"⟩,
  ⟨none, "--database-url", some "<DATABASE_URL>",
    "Database connection URL [env: SQLWEAVE_DATABASE_URL=" ++ url.getD "" ++ "]"⟩,
  ⟨none, "--prefix", some "<PREFIX>", "Table prefix applied to \x7btable\x7d placeholders"⟩,
  ⟨some "-c", "--config", some "<CONFIG>",
    "Configuration file (defaults to <config dir>/sqlweave/config.toml)"⟩,
  ⟨some "-v", "--verbose", none, "Verbose output"⟩,
  ⟨some "-h", "--help", none, "Print help"⟩,
  ⟨some "-V", "--version", none, "Print version"⟩]

/-- The column at which meanings start. -/
def meaningColumn : Nat := 37

/-- A name set off for a terminal. -/
def emphasized (name : String) : String :=
  "\x1b[1m" ++ name ++ "\x1b[0m"

/-- How an option is given, with its names written by `name`. -/
def OptionEntry.form (o : OptionEntry) (name : String → String) : String :=
  (o.short.elim "    " fun s => name s ++ ", ") ++ name o.long ++
    o.value.elim "" fun v => " " ++ v

/-- A line of the list of options. Further lines of a meaning are indented to its column. -/
def OptionEntry.line (o : OptionEntry) : String :=
  "  " ++ o.form emphasized ++ "".pushn ' ' (meaningColumn - 2 - (o.form id).length) ++
    o.meaning.replace "\n" ("\n".pushn ' ' meaningColumn)

/-- The explanation of the command; it shows the URL of the environment, whose control
sequences end where the next emphasized name begins. -/
def help (url : Option String) : List String :=
  ["Compile declarative query definitions to SQL",
    "",
    "Usage: sqlweave [OPTIONS] [DEFINITION] [COMMAND]",
    "",
    "Commands:",
    "  operators  Show the accepted comparison operators",
    "  help       Print this message or the help of the given subcommand(s)",
    "",
    "Arguments:",
    "  [DEFINITION]  Query definition file (TOML)",
    "",
    "Options:"]
    ++ (optionTable url).map OptionEntry.line
    ++ ["",
      "EXAMPLES:",
      "    sqlweave enrolled.toml",
      "    sqlweave enrolled.toml --dialect postgres --format json",
      "    sqlweave enrolled.toml --execute --database-url sqlite://moodle.db"]

/-- The explanation of the subcommand for operators. -/
def operatorsHelp : List String := [
  "Show the accepted comparison operators",
  "",
  "Usage: sqlweave operators",
  "",
  "Options:",
  "  -h, --help  Print help"]

/-- The explanation of the subcommand for help. -/
def helpHelp : List String := [
  "Print this message or the help of the given subcommand(s)",
  "",
  "Usage: sqlweave help [COMMAND]...",
  "",
  "Arguments:",
  "  [COMMAND]...  Print help for the subcommand(s)"]

/-! ## Statements -/

/-- The lines that show a statement and its values. -/
def showStatement (output : Output) (c : Compiled) : List String :=
  match output with
  | .json =>
    [(Tree.record [("params", .list (c.params.map Value.tree)), ("sql", .text c.sql)]).prettyJson]
  | .table =>
    ["Generated SQL:", c.sql] ++
      if c.params.isEmpty then []
      else ["", "Parameters:"] ++ c.params.mapIdx fun i v => s!"  {i + 1} = {v.display}"

/-- The settings of a run: those of the file, changed by the options. A URL in the
environment stands for the option. -/
def loadSettings (w : Surroundings) (o : Options) : Except String Settings := do
  let file := match o.config with
    | some path => some (w.read path)
    | none => w.settings
  let s ← (Settings.load (file.map fun f => f.mapError FileError.message) w.url).mapError
    fun e => "loading configuration: " ++ reason e
  let s := { s with
    databaseUrl := (o.databaseUrl.or w.url).getD s.databaseUrl
    tableBeginning := o.tableBeginning.getD s.tableBeginning
    dialect := o.dialect.or s.dialect }
  s.validate.mapError reason
  return s

/-- The query of a definition file. -/
def loadQuery (w : Surroundings) (path : String) : Except String Query := do
  let text ← (w.read path).mapError fun e => s!"reading {path}: {e.message}"
  let d ← (Definition.ofToml text).mapError fun e => s!"parsing {path}: {reason e}"
  d.toQuery.mapError reason

/-- Prints the statement of a definition. -/
def runDefinition (w : Surroundings) (o : Options) (path : String) : Outcome :=
  match do return (← loadQuery w path, ← loadSettings w o) with
  | .error reason => .failure [] reason
  | .ok (q, s) =>
    let opening := if o.verbose then ["Definition: " ++ path] else []
    let d := s.resolvedDialect
    if o.execute then
      if o.inline then .failure opening "--inline cannot be combined with --execute"
      else
        let opening := opening ++ if o.verbose then ["Connecting to: " ++ s.databaseUrl] else []
        .failure opening (reason (.connection "no database driver"))
    else
      let c := if o.inline then ⟨q.inline d, []⟩ else q.compile d
      .success (opening ++ showStatement (o.output.getD .table) c)

/-- The files that a run may read. -/
def paths (args : List String) : List String :=
  match Request.ofArguments args with
  | .run o => o.definition.toList ++ o.config.toList
  | _ => []

/-- The outcome of a run. -/
def run (args : List String) (w : Surroundings) : Outcome :=
  match Request.ofArguments args with
  | .run o =>
    match o.definition with
    | some path => runDefinition w o path
    | none => .success overview
  | .operators => .success operators
  | .help => .plainSuccess (help w.url)
  | .operatorsHelp => .success operatorsHelp
  | .helpHelp => .success helpHelp
  | .version => .success ["sqlweave 0.1.0"]
  | .mistake => ⟨2, "", "error: the arguments cannot be understood\n\n" ++
      "For more information, try '--help'.\n"⟩

end SelectSql.CommandLine
