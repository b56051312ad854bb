import ItemStore.Keys.Schema
import ItemStore.Wire.Decode

/-
  Keys of items. A key value is written under the type that the table gives its attribute, never
  under the type of the value itself. `Schema.split` takes the key attributes out of an item.
-/

namespace ItemStore

/-- A key value under a key type. -/
def KeyType.wire (t : KeyType) (v : Value) : Outcome Wire :=
  match t, v with
  | .text, v => .s <$> Outcome.ofFault v.toText
  | .number, v => .n <$> Outcome.ofFault v.toText
  | .binary, .text s => .ok (.b s.toUTF8.toList)
  | .binary, v => .b <$> Outcome.ofFault v.toBytes

namespace Schema

/-- The key with the given values: empty while the schema is not ready. A range value without a
range attribute is passed over. -/
def key (s : Schema) (hash range : Value) : Outcome Item :=
  match s.hash? with
  | none => .ok []
  | some (hashName, hashType) => do
    let hashWire ← hashType.wire hash
    match range, s.range? with
    | .null, _ | _, none => return [(hashName, hashWire)]
    | range, some (rangeName, rangeType) =>
      return Entries.insert rangeName (← rangeType.wire range) [(hashName, hashWire)]

/-- The plain values of the named attributes that an item has, and the item without them. -/
def takeKeys (decimalNumbers : Bool) :
    List String → List (Value × Value) → Outcome (List Value × List (Value × Value))
  | [], es => .ok ([], es)
  | name :: names, es =>
    match Entries.get? (.text name) es with
    | none => takeKeys decimalNumbers names es
    | some w => do
      let v ← w.fromWire decimalNumbers
      let (vs, rest) ← takeKeys decimalNumbers names (Entries.erase (.text name) es)
      return (v :: vs, rest)

/-- An item as plain values: its key values, hash before range, and the map of its other
attributes. -/
def split (s : Schema) (item : Value) (decimalNumbers : Bool) :
    Outcome (List Value × List (Value × Value)) := do
  let (key, rest) ← takeKeys decimalNumbers s.keyNames (← Outcome.ofFault item.toEntries)
  return (key, ← Value.fromWireFields decimalNumbers rest)

end Schema

end ItemStore
