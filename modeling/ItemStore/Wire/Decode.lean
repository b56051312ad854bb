import ItemStore.Wire.Number

/-
  Wire values read back as plain values. The input may be any value: what is not a map with
  exactly one entry under a known tag is a marshalling failure that carries the first such value
  met.
-/

namespace ItemStore

namespace Value

/-- The failure of a value that is no wire value. -/
def notTagged (v : Value) : Failure :=
  .marshal "Wire value must carry exactly one type tag" v none

/-- The failure of a wire value under an unknown tag. -/
def unknownTag (tag v : Value) : Failure :=
  .marshal ("Unknown wire type tag: " ++ tag.quoted) v none

/-- The elements of a payload that is gone through. -/
def payloadElements (payload : Value) : Outcome (List Value) :=
  .ofFault payload.elements

/-- A list payload that is no sequence: its elements are never wire values. -/
def fromOtherList (payload : Value) : Outcome Value :=
  match payload.elements with
  | .error f => .error (.fault f)
  | .ok [] => .ok (.list [])
  | .ok (x :: _) => .error x.notTagged

mutual

/-- The plain value of a wire value. -/
def fromWire (decimalNumbers : Bool) : Value → Outcome Value
  | .map [(tag, payload)] =>
    match Tag.ofValue? tag with
    | some .s => .ok payload
    | some .n => readNumber decimalNumbers payload
    | some .bool => .ok (.bool payload.isTruthy)
    | some .null => .ok .null
    | some .b => .ok payload
    | some .m =>
      match payload with
      | .map es => .map <$> fromWireFields decimalNumbers es
      | other => if other.isTruthy then .error (.fault .noOperation) else .ok (.map [])
    | some .l =>
      match payload with
      | .seq _ xs => .list <$> fromWireAll decimalNumbers xs
      | other => fromOtherList other
    | some .ss => .list <$> payloadElements payload
    | some .ns => do
      let texts ← payloadElements payload
      return .list (← texts.mapM (readNumber decimalNumbers))
    | some .bs => .list <$> payloadElements payload
    | none => .error (unknownTag tag (.map [(tag, payload)]))
  | v => .error v.notTagged

/-- The plain values of wire values, up to the first that is none. -/
def fromWireAll (decimalNumbers : Bool) : List Value → Outcome (List Value)
  | [] => .ok []
  | x :: xs => do
    let v ← fromWire decimalNumbers x
    return v :: (← fromWireAll decimalNumbers xs)

/-- The entries of a map of wire values with their plain values. -/
def fromWireFields (decimalNumbers : Bool) : List (Value × Value) → Outcome (List (Value × Value))
  | [] => .ok []
  | (k, x) :: es => do
    let v ← fromWire decimalNumbers x
    return (k, v) :: (← fromWireFields decimalNumbers es)

end

/-- The plain map of an item; an item that is absent or empty gives the empty map. -/
def fromItem (decimalNumbers : Bool) (item : Value) : Outcome Value :=
  if item.isTruthy then do
    let es ← Outcome.ofFault item.entries
    return .map (← fromWireFields decimalNumbers es)
  else .ok (.map [])

end Value

end ItemStore
