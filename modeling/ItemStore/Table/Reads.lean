import ItemStore.Table.Basic
import ItemStore.Value.Sum

/-
  Reads of a table: queries and scans over pages, single items, and the number of items.
-/

namespace ItemStore

namespace Table

/-- A read over pages. A projection that counts as absent is not set. -/
def read (t : Table) (method : ReadMethod) (source projection limit : Value) (options : Params) :
    Outcome Pages := do
  if Entries.hasAny ["self", "method"] options then throw (.fault .wrongKind)
  let compiled ← t.compile source 1
  let pages ← Pages.start method t.schema t.grammar t.decimalNumbers compiled limit options
  if projection.isTruthy then
    return { pages with params := Entries.insert "ProjectionExpression" projection pages.params }
  else return pages

/-- The failure of a query without a key condition. -/
def noKeyCondition (source : Value) : Failure :=
  .validation "Query needs a key condition with at least one value"
    (.record [("KeyConditionExpression", source)]) none

/-- A query by a key condition, which has to bind a value. -/
def query (t : Table) (source projection limit : Value) (options : Params) : Outcome Pages := do
  let compiled ← t.compile source 1
  if compiled.isEmpty || compiled.values.isEmpty then throw (noKeyCondition source)
  t.read .query source projection limit options

/-- A scan, with a filter or without. -/
def scan (t : Table) (source projection limit : Value) (options : Params) : Outcome Pages :=
  t.read .scan source projection limit options

/-- The item under a key as a plain map. An item that is absent from the reply, or empty there,
is not found. -/
def get (t : Table) (hash range projection : Value) : Exchange Value := do
  let key ← t.requireKey hash range
  let reply ← t.gateway.call .getItem (("Key", key.toValue) :: projectionParams projection)
  let item ← Outcome.ofFault (reply.fieldD "Item" .null)
  if item.isTruthy then t.plain item
  else throw (.itemNotFound t.name key.toValue none)

/-- Adds the counts of all pages to a total. -/
def countPages (t : Table) (params : Params) (total : Value) (l : Link) : Outcome Value × Link :=
  match t.gateway.request .scan params with
  | .error e => (.error e, l)
  | .ok request =>
    match h : Link.send request l with
    | (.error e, l') =>
      (.error (e.interpreted Operation.scan.name t.name (Gateway.resourceOf params)), l')
    | (.ok reply, l') =>
      have := Link.send_replies h
      match reply.fieldD "Count" (.int 0), reply.fieldD "LastEvaluatedKey" .null with
      | .error f, _ | _, .error f => (.error (.fault f), l')
      | .ok count, .ok lastKey =>
        match total.plus count with
        | .error f => (.error (.fault f), l')
        | .ok total =>
          if lastKey.isTruthy then
            countPages t (Entries.insert "ExclusiveStartKey" lastKey params) total l'
          else (.ok total, l')
termination_by l.replies.length
decreasing_by simp only [this, List.length_cons]; omega

/-- The number of items that the service last noted. -/
def notedCount (t : Table) : Exchange Value := do
  let description ← t.gateway.describeTable
  let count ← Outcome.ofFault (description.fieldD "ItemCount" (.int 0))
  return .int (← Outcome.ofFault count.toInt)

/-- The number of items: as last noted, or counted over all pages when that is asked for or a
filter is given. -/
def count (t : Table) (manual source : Value) : Exchange Value := do
  let compiled ← t.compile source 1
  if !manual.isTruthy && compiled.isEmpty then t.notedCount
  else
    let filter := if compiled.isEmpty then [] else compiled.toParams "FilterExpression"
    t.countPages (Entries.merge [("Select", .text "COUNT")] filter) (.int 0)

end Table

end ItemStore
