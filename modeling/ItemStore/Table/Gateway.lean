import ItemStore.Config.Basic
import ItemStore.Keys.Description
import ItemStore.Pages.Basic
import ItemStore.Service.Meaning

/-
  The requests of one table. Each names the table unless the caller names another, and error
  replies are told as failures that name the operation, the table and, where the caller gives
  one, the resource.
-/

namespace ItemStore

/-- One table of the service, by its full name. -/
structure Gateway where
  config : Config
  tableName : String
  deriving Inhabited

namespace Gateway

/-- The option that names the resource of a request; it is told in failures and is not sent. -/
def resourceOption : String :=
  "resource_id"

/-- The names that belong to a call itself and cannot be options. -/
def reservedNames : List String :=
  ["self", "operation", "method"]

/-- The table that configured settings give a base name. -/
def ofConfig (config : Config) (base : Value) : Outcome Gateway := do
  return ⟨config, ← config.tableName base⟩

/-- Sends a request and interprets an error reply. -/
def invoke (g : Gateway) (r : Request) (resource : Value) : Exchange Value := fun l =>
  match Link.send r l with
  | (.ok reply, l) => (.ok reply, l)
  | (.error e, l) => (.error (e.interpreted r.operation.name g.tableName resource), l)

/-- The resource that options name. -/
def resourceOf (options : Params) : Value :=
  (Entries.get? resourceOption options).getD .null

/-- The request of an operation on the table with options. -/
def request (g : Gateway) (operation : Operation) (options : Params) : Outcome Request :=
  if Entries.hasAny reservedNames options then .error (.fault .wrongKind)
  else
    let options := Entries.erase resourceOption options
    .ok ⟨operation, Entries.merge [("TableName", .text g.tableName)] options⟩

/-- An operation on the table with options. -/
def call (g : Gateway) (operation : Operation) (options : Params) : Exchange Value := do
  let r ← g.request operation options
  g.invoke r (resourceOf options)

/-- The pages of a query or a scan of the table. -/
def pageSource (g : Gateway) (method : ReadMethod) : PageSource where
  request := g.request method.operation
  interpret options f := f.interpreted method.operation.name g.tableName (resourceOf options)

/-- The description of the table. -/
def describeTable (g : Gateway) : Exchange Value := do
  let reply ← g.call .describeTable []
  Outcome.ofFault (reply.field "Table")

/-- The schema of the table. -/
def describeSchema (g : Gateway) : Exchange Schema := do
  Schema.ofDescription (← g.describeTable)

/-- One batch of writes. The options are parameters of the request and can take the place of the
batch; what has no size fails after it was sent. -/
def batchWrite (g : Gateway) (requests : Value) (options : Params) : Exchange Value := do
  let batch := Value.map [(.text g.tableName, requests)]
  let params := Entries.merge [("RequestItems", batch)] options
  let reply ← g.invoke ⟨.batchWriteItem, params⟩ .null
  let _ ← Outcome.ofFault requests.size
  return reply

/-- One batch of reads. The options belong to the batch and can take the place of its keys. -/
def batchGet (g : Gateway) (keys : Value) (options : Params) : Exchange Value :=
  let batch := Value.record (Entries.merge [("Keys", keys)] options)
  g.invoke ⟨.batchGetItem, [("RequestItems", .map [(.text g.tableName, batch)])]⟩ .null

/-- The operations that take options and nothing else. -/
def plainOperations : List Operation :=
  [.query, .scan, .getItem, .putItem, .updateItem, .deleteItem]

/-- The single argument of a call, given by its place or by its name, and the other options. -/
def argument (name : String) (arguments : List Value) (options : Params) :
    Outcome (Value × Params) :=
  match arguments, Entries.get? name options with
  | [a], none => .ok (a, options)
  | [], some a => .ok (a, Entries.erase name options)
  | _, _ => .error (.fault .wrongKind)

/-- A call of an operation by the name of its method. -/
def perform (g : Gateway) (method : String) (arguments : List Value) (options : Params) :
    Exchange Value :=
  if method = Operation.describeTable.method then
    if arguments.isEmpty && options.isEmpty then g.describeTable
    else Exchange.done (.error (.fault .wrongKind))
  else if method = Operation.batchWriteItem.method then do
    let (requests, options) ← argument "requests" arguments options
    if Entries.hasAny ["self"] options then throw (.fault .wrongKind)
    g.batchWrite requests options
  else if method = Operation.batchGetItem.method then do
    let (keys, options) ← argument "keys" arguments options
    if Entries.hasAny ["self"] options then throw (.fault .wrongKind)
    g.batchGet keys options
  else
    match plainOperations.find? fun o => o.method == method with
    | some operation =>
      if arguments.isEmpty then g.call operation options
      else Exchange.done (.error (.fault .wrongKind))
    | none => Exchange.done (.error (.fault .noOperation))

end Gateway

end ItemStore
