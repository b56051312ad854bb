import ItemStore.Keys.Schema

/-
  The schema of a table from its description: the first element of role HASH names the hash
  attribute, the first of role RANGE the range attribute, and their types are looked up among
  the attribute definitions, which may hold others.
-/

namespace ItemStore

namespace Schema

/-- The values under a field of a description; an absent or empty field has none. -/
def described (description : Value) (name : String) : Except Fault Value := do
  let v ← description.fieldD name .null
  return if v.isTruthy then v else .list []

/-- A definition: the name of an attribute with its type. -/
def definition (v : Value) : Except Fault (Value × Value) := do
  let name ← v.field "AttributeName"
  let type ← v.field "AttributeType"
  if name.isHashable then return (name, type) else throw .wrongKind

/-- The attribute of the first element with the given role, null if there is none. -/
def attributeOf (role : String) : List Value → Except Fault Value
  | [] => .ok .null
  | x :: xs => do
    if (← x.field "KeyType").isText role then x.field "AttributeName" else attributeOf role xs

/-- The type of a described attribute. -/
def typeOf (definitions : List (Value × Value)) (name : Value) : Except Fault Value :=
  if name.isHashable then .ok ((Entries.get? name definitions).getD .null) else .error .wrongKind

/-- The failure of a description without a hash attribute. -/
def noHashKey (tableName elements : Value) : Failure :=
  .validation ("Table '" ++ tableName.shown ++ "' description has no HASH key")
    (.record [("KeySchema", elements)]) none

/-- The schema that a table description gives. -/
def ofDescription (description : Value) : Outcome Schema := do
  let elements ← Outcome.ofFault (described description "KeySchema")
  let defined ← Outcome.ofFault do
    (← (← described description "AttributeDefinitions").elements).mapM definition
  let definitions := Entries.ofPairs defined
  let parts ← Outcome.ofFault elements.elements
  let hash ← Outcome.ofFault (attributeOf "HASH" parts)
  let range ← Outcome.ofFault (attributeOf "RANGE" parts)
  if hash matches .null then
    let tableName ← Outcome.ofFault (description.fieldD "TableName" .null)
    throw (noHashKey tableName elements)
  let hashType ← Outcome.ofFault (typeOf definitions hash)
  let rangeType ← Outcome.ofFault (if range.isTruthy then typeOf definitions range else .ok .null)
  ofFields [("hash_key", hash), ("hash_type", hashType), ("range_key", range),
    ("range_type", rangeType)]

end Schema

end ItemStore
