import ItemStore.Table.Basic
import ItemStore.Wire.Encode

/-
  Writes of single items: puts, guarded puts, updates and deletes.
-/

namespace ItemStore

namespace Table

/-- The names of the arguments of a put, which cannot be options. -/
def putNames : List String :=
  ["self", "hash_value", "range_value", "value"]

/-- The attributes of a value under a key. The key's attributes take the place of those of the
same name. -/
def keyedItem (t : Table) (hash range value : Value) : Outcome Item := do
  let key ← t.requireKey hash range
  return Entries.merge (← Outcome.ofFault value.toItem) key

/-- Writes a value under a key. Options are further parameters of the request. -/
def put (t : Table) (hash range value : Value) (options : Params) : Exchange Unit := do
  if Entries.hasAny putNames options then throw (.fault .wrongKind)
  let item ← t.keyedItem hash range value
  let _ ← t.gateway.call .putItem (Entries.merge [("Item", item.toValue)] options)

/-- The condition that no item has the table's hash attribute. -/
def isNew (s : Schema) : Outcome Compiled :=
  let source := "attribute_not_exists(\x60" ++ s.hashKey.getD "None" ++ "\x60)"
  Expression.compileValue .inferred 1 (.text source)

/-- Writes a value under a key if no item is there. -/
def putNew (t : Table) (hash range value : Value) : Exchange Unit := do
  let item ← t.keyedItem hash range value
  let condition ← isNew t.schema
  let _ ← t.gateway.call .putItem
    (Entries.merge [("Item", item.toValue)] (condition.toParams "ConditionExpression"))

/-- The failure of an update that changes nothing. -/
def emptyUpdate (source : Value) : Failure :=
  .validation "Update expression is empty" (.record [("UpdateExpression", source)]) none

/-- The parameters with a condition, where one is given. Its placeholders go on from those of the
update. -/
def withCondition (t : Table) (condition : Value) (lastIndex : Nat) (params : Params) :
    Outcome Params :=
  if condition.isTruthy then do
    let compiled ← t.compile condition (lastIndex + 1)
    let params := Entries.insert "ConditionExpression" (.text compiled.expression) params
    match compiled.bindInto params with
    | (.ok (), params) => return params
    | (.error e, _) => throw e
  else .ok params

/-- Updates the item under a key and gives the item that results. -/
def update (t : Table) (hash range source condition : Value) : Exchange Value := do
  let key ← t.requireKey hash range
  let compiled ← t.compile source 1
  if compiled.isEmpty then throw (emptyUpdate source)
  let params := Entries.merge [("Key", key.toValue), ("ReturnValues", .text "ALL_NEW")]
    (compiled.toParams "UpdateExpression")
  let params ← t.withCondition condition compiled.lastIndex params
  let reply ← t.gateway.call .updateItem params
  t.plain (← Outcome.ofFault (reply.fieldD "Attributes" .null))

/-- Deletes the item under a key, if there is one. -/
def delete (t : Table) (hash range : Value) : Exchange Unit := do
  let key ← t.requireKey hash range
  let _ ← t.gateway.call .deleteItem [("Key", key.toValue)]

end Table

end ItemStore
