import ItemStore.Expression.Compile
import ItemStore.Fields.Types

/-
  The settings of a client and of the expression language. What is not given is taken from the
  environment, or is the default. Given values are checked, those of the environment are not.
-/

namespace ItemStore

open Number (Binary64)

/-- The variables of the environment that are set. -/
abbrev Environment := List (String × String)

/-- The settings. -/
structure Config where
  region : String
  endpoint : Option String
  tablePrefix : String
  poolSize : Int
  retries : Int
  timeout : Binary64
  stage : String
  debugLogging : Bool
  /-- The name of the grammar of expressions. -/
  grammar : String
  decimalNumbers : Bool
  deriving Inhabited

namespace Config

/-- The stages of deployment. -/
def stages : List String :=
  ["dev", "test", "staging", "prod"]

/-- The stage whose tables do not carry its name. -/
def production : String :=
  "prod"

/-- A region: text that is not empty. -/
def checkRegion (v : Value) : Checked String :=
  (Field.text v).andThen fun s =>
    if s = "" then .refuse (.rule "AWS region name is required") else .taken s

/-- A stage of deployment. -/
def checkStage (v : Value) : Checked String :=
  (Field.text v).andThen fun s =>
    if stages.contains s then .taken s
    else
      let known := (Value.list (stages.map .text)).quoted
      .refuse (.rule ("Environment must be one of: " ++ known))

/-- The name of a grammar. -/
def checkGrammar (v : Value) : Checked String :=
  Grammar.name <$> Field.choice Grammar.ofName? v

/-- The value of a variable of the environment. -/
def lookup? (env : Environment) (name : String) : Option String :=
  Entries.get? name env

/-- Whether a variable of the environment is the word true, in any case. -/
def isOn (env : Environment) (name : String) : Bool :=
  (lookup? env name).any fun s => Text.lower s.toList == "true".toList

/-- The settings of given fields; fields of other names are passed over. -/
def ofFields (env : Environment) (fields : Params) : Outcome Config :=
  let text (name standIn : String) := (lookup? env name).getD standIn
  Checked.toOutcome
    (Config.mk
      <$> fieldOr fields "region_name" (text "AWS_REGION" "us-east-1") checkRegion
      <*> fieldOr fields "endpoint_url" (lookup? env "DYNAMODB_ENDPOINT_URL")
        (Field.optional Field.text)
      <*> fieldOr fields "table_prefix" (text "DYNAMODB_TABLE_PREFIX" "") Field.text
      <*> fieldOr fields "max_pool_connections" 50 Field.integer
      <*> fieldOr fields "retries" 3 Field.integer
      <*> fieldOr fields "timeout_seconds" (.ofInt 30) Field.real
      <*> fieldOr fields "environment" (text "ENVIRONMENT" "dev") checkStage
      <*> fieldOr fields "enable_debug_logging" (isOn env "DYNAMODB_DEBUG_LOGGING") Field.boolean
      <*> fieldOr fields "literal_grammar"
        (text "DYNAMODB_DSL_GRAMMAR" Grammar.inferred.name) checkGrammar
      <*> fieldOr fields "decimal_numbers" (isOn env "DYNAMODB_DSL_DECIMAL") Field.boolean)

/-- The fields that are given for a service on this machine, at its usual address. -/
def fieldsOnThisMachine : Params :=
  [("region_name", .text "us-east-1"), ("endpoint_url", .text "http://localhost:8000"),
    ("environment", .text "dev"), ("enable_debug_logging", .bool true)]

/-- The settings for a service on this machine. -/
def onThisMachine (env : Environment) : Outcome Config :=
  ofFields env fieldsOnThisMachine

/-- The ways in which settings are made. -/
inductive Origin where
  | fields (given : Params)
  | environment
  | thisMachine

namespace Origin

/-- The settings that are made. -/
def make (env : Environment) : Origin → Outcome Config
  | .fields given => ofFields env given
  | .environment => ofFields env []
  | .thisMachine => onThisMachine env

end Origin

/-- The fields with their values. -/
def fields (c : Config) : Params :=
  [("region_name", .text c.region),
   ("endpoint_url", (c.endpoint.map Value.text).getD .null),
   ("table_prefix", .text c.tablePrefix),
   ("max_pool_connections", .int c.poolSize),
   ("retries", .int c.retries),
   ("timeout_seconds", .float c.timeout),
   ("environment", .text c.stage),
   ("enable_debug_logging", .bool c.debugLogging),
   ("literal_grammar", .text c.grammar),
   ("decimal_numbers", .bool c.decimalNumbers)]

/-- The settings with one field set anew. A private name, one with an underscore in front, may
be set to anything and is no setting. -/
def set (c : Config) (name : String) (v : Value) : Outcome Config :=
  let checked : Checked Config :=
    match name with
    | "region_name" => (fun x => { c with region := x }) <$> checkRegion v
    | "endpoint_url" => (fun x => { c with endpoint := x }) <$> Field.optional Field.text v
    | "table_prefix" => (fun x => { c with tablePrefix := x }) <$> Field.text v
    | "max_pool_connections" => (fun x => { c with poolSize := x }) <$> Field.integer v
    | "retries" => (fun x => { c with retries := x }) <$> Field.integer v
    | "timeout_seconds" => (fun x => { c with timeout := x }) <$> Field.real v
    | "environment" => (fun x => { c with stage := x }) <$> checkStage v
    | "enable_debug_logging" => (fun x => { c with debugLogging := x }) <$> Field.boolean v
    | "literal_grammar" => (fun x => { c with grammar := x }) <$> checkGrammar v
    | "decimal_numbers" => (fun x => { c with decimalNumbers := x }) <$> Field.boolean v
    | _ => if name.toList.head? = some '_' then .taken c else .refuse .unknownField
  (checked.under (.text name)).toOutcome

/-- Sets a field anew. Where that is refused, the settings stay as they are. -/
def assign (c : Config) (name : String) (v : Value) : Outcome Unit × Config :=
  match c.set name v with
  | .ok c => (.ok (), c)
  | .error f => (.error f, c)

/-- The settings at every point of assignments: at the start and after each of them. -/
def states (c : Config) : Params → List Config
  | [] => [c]
  | (name, v) :: rest => c :: (c.assign name v).2.states rest

/-- The full name of a table: prefix, stage and base name, without an empty prefix and without
the stage of production. -/
def tableName (c : Config) (base : Value) : Outcome String :=
  match base with
  | .text s =>
    let front := if c.tablePrefix = "" then [] else [c.tablePrefix]
    let stage := if c.stage = production then [] else [c.stage]
    .ok (joinWith "_" (front ++ stage ++ [s]))
  | _ => .error (.fault .wrongKind)

end Config

end ItemStore
