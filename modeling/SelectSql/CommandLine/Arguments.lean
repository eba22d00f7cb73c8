import SelectSql.Dialect

/-!
# SelectSql.CommandLine.Arguments

The arguments of the command, and what they ask for.

Design points:

* **Arguments are read from the left, and the first one that settles the matter wins**:
  a request for help or for the version, or a mistake.
* **An option is given once.** Its value is the next argument, unless that starts with a
  minus sign, or is attached: `--format=json`, `-f=json`, `-fjson`.
* **The name of a subcommand is taken for it wherever an argument without a minus sign
  may stand**, except behind `--`.
* **A value that is an argument of its own is checked late**: behind a subcommand, if one
  follows it, so that a request for help is answered in spite of a wrong value. An
  attached value is checked where it stands.
-/

namespace SelectSql.CommandLine

/-- How a statement is printed. -/
inductive Output
  | table | json
deriving DecidableEq

/-- The settings of a run. -/
structure Options where
  definition : Option String := none
  dialect : Option Dialect := none
  inline : Bool := false
  execute : Bool := false
  output : Option Output := none
  databaseUrl : Option String := none
  tableBeginning : Option String := none
  config : Option String := none
  verbose : Bool := false

/-- What the arguments ask for. -/
inductive Request
  | run (options : Options)
  | operators
  | help
  | operatorsHelp
  | helpHelp
  | version
  | mistake

/-- The options that take a value. -/
inductive ValueOption
  | dialect | output | databaseUrl | tableBeginning | config

/-- The options that do not. -/
inductive Flag
  | inline | execute | verbose

/-- What the name of an option means. -/
inductive Name
  | value (o : ValueOption)
  | flag (f : Flag)
  | help
  | version

/-- The long names. -/
def longName? : String → Option Name
  | "dialect" => some (.value .dialect)
  | "inline" => some (.flag .inline)
  | "execute" => some (.flag .execute)
  | "format" => some (.value .output)
  | "database-url" => some (.value .databaseUrl)
  | "prefix" => some (.value .tableBeginning)
  | "config" => some (.value .config)
  | "verbose" => some (.flag .verbose)
  | "help" => some .help
  | "version" => some .version
  | _ => none

/-- The short names. -/
def shortName? : Char → Option Name
  | 'd' => some (.value .dialect)
  | 'e' => some (.flag .execute)
  | 'f' => some (.value .output)
  | 'c' => some (.value .config)
  | 'v' => some (.flag .verbose)
  | 'h' => some .help
  | 'V' => some .version
  | _ => none

/-- The output of a name. -/
def Output.ofName? : String → Option Output
  | "table" => some .table
  | "json" => some .json
  | _ => none

namespace Options

/-- Sets a field that has no value yet. -/
def once {α : Type} (field : Option α) (value : Option α) : Option (Option α) :=
  match field, value with
  | none, some v => some (some v)
  | _, _ => none

/-- A path, which must not be empty. -/
def path? (value : String) : Option String :=
  if value.isEmpty then none else some value

/-- The options with the value of one more option, if it is allowed. -/
def setValue (o : Options) (name : ValueOption) (value : String) : Option Options :=
  match name with
  | .dialect => (once o.dialect (Dialect.ofName? value)).map fun x => { o with dialect := x }
  | .output => (once o.output (Output.ofName? value)).map fun x => { o with output := x }
  | .databaseUrl => (once o.databaseUrl (some value)).map fun x => { o with databaseUrl := x }
  | .tableBeginning =>
    (once o.tableBeginning (some value)).map fun x => { o with tableBeginning := x }
  | .config => (once o.config (path? value)).map fun x => { o with config := x }

/-- The options with one more flag, if it is not set yet. -/
def setFlag (o : Options) (f : Flag) : Option Options :=
  match f with
  | .inline => if o.inline then none else some { o with inline := true }
  | .execute => if o.execute then none else some { o with execute := true }
  | .verbose => if o.verbose then none else some { o with verbose := true }

/-- The options with the path of the definition, if there is none yet. -/
def setDefinition (o : Options) (value : String) : Option Options :=
  (once o.definition (path? value)).map fun x => { o with definition := x }

end Options

/-! ## Reading -/

/-- What an argument leads to: more options, an option that waits for its value, or an
answer. There are no options if the last argument is a wrong value, which is a mistake
unless a request for help follows it at once. -/
inductive Step
  | more (o : Option Options)
  | waiting (o : Options) (name : ValueOption)
  | done (r : Request)

/-- More options, or a mistake. -/
def Step.ofOptions? : Option Options → Step
  | some o => .more o
  | none => .done .mistake

/-- The step of a long option behind its two minus signs. -/
def longStep (o : Options) (text : List Char) : Step :=
  let name := text.takeWhile (· != '=')
  let value := match text.dropWhile (· != '=') with
    | _ :: v => some (String.ofList v)
    | [] => none
  match longName? (String.ofList name), value with
  | some (.value n), some v => .ofOptions? (o.setValue n v)
  | some (.value n), none => .waiting o n
  | some (.flag f), none => .ofOptions? (o.setFlag f)
  | some .help, none => .done .help
  | some .version, none => .done .version
  | _, _ => .done .mistake

/-- The step of short options behind their minus sign. -/
def shortStep (o : Options) : List Char → Step
  | [] => .more o
  | c :: rest =>
    match shortName? c with
    | some (.value n) =>
      match rest with
      | [] => .waiting o n
      | '=' :: v => .ofOptions? (o.setValue n (String.ofList v))
      | v => .ofOptions? (o.setValue n (String.ofList v))
    | some (.flag f) =>
      match o.setFlag f with
      | some o => shortStep o rest
      | none => .done .mistake
    | some .help => .done .help
    | some .version => .done .version
    | none => .done .mistake

/-- The arguments behind `--`: nothing but the definition. -/
def plainArguments (o : Options) : List String → Request
  | [] => .run o
  | a :: rest =>
    match o.setDefinition a with
    | some o => plainArguments o rest
    | none => .mistake

/-- Whether an argument begins with the short request for help. -/
def beginsWithHelp (a : String) : Bool :=
  match a.toList with
  | '-' :: 'h' :: _ => true
  | _ => false

/-- What is asked of the subcommand that lists the operators. The list is given only if
the arguments before the subcommand are in order. -/
def operatorsRequest (inOrder : Bool) : List String → Request
  | [] | ["--"] => if inOrder then .operators else .mistake
  | a :: _ => if a == "--help" || beginsWithHelp a then .operatorsHelp else .mistake

/-- What is asked of the subcommand that explains subcommands. -/
def helpRequest : List String → Request
  | [] => .help
  | ["operators"] => .operatorsHelp
  | ["help"] => .helpHelp
  | _ => .mistake

/-- Whether an argument names options, long or short; a minus sign alone does not. -/
def namesOption (a : String) : Bool :=
  match a.toList with
  | '-' :: _ :: _ => true
  | _ => false

/-- The step of the path of the definition. There is no place for a second one. -/
def definitionStep (o : Options) (a : String) : Step :=
  if o.definition.isSome then .done .mistake else .more (o.setDefinition a)

/-- The step of an argument that is not the value of an option. -/
def argumentStep (o : Options) (a : String) : Step :=
  match a.toList with
  | '-' :: '-' :: text => longStep o text
  | '-' :: c :: text => shortStep o (c :: text)
  | _ => definitionStep o a

/-- What arguments ask for, behind those that have been read. -/
def readFrom : Step → List String → Request
  | .done r, _ => r
  | .waiting _ _, [] => .mistake
  | .waiting o name, v :: rest =>
    if namesOption v then .mistake else readFrom (.more (o.setValue name v)) rest
  | .more none, [] => .mistake
  | .more (some o), [] => .run o
  | .more o, a :: rest =>
    match a, o with
    | "operators", o => operatorsRequest o.isSome rest
    | "help", _ => helpRequest rest
    | _, none => .mistake
    | "--", some o => plainArguments o rest
    | a, some o => readFrom (argumentStep o a) rest

/-- What the arguments of a command ask for. -/
def Request.ofArguments (args : List String) : Request :=
  readFrom (.more (some {})) args

end SelectSql.CommandLine
