import ItemStore.Table.Gateway

/-
  A handle on one table: its key schema, which is found once and then kept, and how expressions
  and numbers are read. Every operation on an item builds the item's key first.
-/

namespace ItemStore

/-- A handle on a table. -/
structure Table where
  gateway : Gateway
  schema : Schema := {}
  grammar : Grammar := .inferred
  decimalNumbers : Bool := false
  deriving Inhabited

namespace Table

/-- The full name of the table. -/
def name (t : Table) : String :=
  t.gateway.tableName

/-- A handle; the grammar and the way of reading numbers are those of the settings unless they
are given. -/
def ofGateway (g : Gateway) (schema : Schema) (grammar : Value) (decimalNumbers : Option Bool) :
    Outcome Table := do
  let grammar ← Grammar.ofValue (if grammar matches .null then .text g.config.grammar else grammar)
  return { gateway := g, schema, grammar
           decimalNumbers := decimalNumbers.getD g.config.decimalNumbers }

/-- A handle with the schema that the service describes. -/
def bind (g : Gateway) (grammar : Value) (decimalNumbers : Option Bool) : Exchange Table := do
  ofGateway g (← g.describeSchema) grammar decimalNumbers

/-- The compiled expression of a source. -/
def compile (t : Table) (source : Value) (start : Nat) : Outcome Compiled :=
  Expression.compileValue t.grammar start source

/-- The failure of a table whose schema is not known. -/
def notResolved (t : Table) : Failure :=
  .validation ("Key schema for table '" ++ t.name ++ "' is not resolved") (.map []) none

/-- The failure of a key without the range value that the table asks for. -/
def rangeMissing (t : Table) (rangeName : String) : Failure :=
  .validation ("Table '" ++ t.name ++ "' requires a range key value")
    (.record [("range_key", .text rangeName)]) none

/-- The key of an item, which has to be complete. -/
def requireKey (t : Table) (hash range : Value) : Outcome Item := do
  let key ← t.schema.key hash range
  if key.isEmpty then throw t.notResolved
  match Schema.named? t.schema.rangeKey, range with
  | some rangeName, .null => throw (t.rangeMissing rangeName)
  | _, _ => return key

/-- The plain map of an item of the table. -/
def plain (t : Table) (item : Value) : Outcome Value :=
  item.fromItem t.decimalNumbers

/-- The projection of a request, when one is given. -/
def projectionParams (projection : Value) : Params :=
  if projection.isTruthy then [("ProjectionExpression", projection)] else []

end Table

end ItemStore
