import ItemStore.Wire.Shape

/-
  Plain values written as wire values. What cannot be stored becomes null. Numbers and the keys of
  maps are written as text, so an integer with too many digits is a fault.
-/

namespace ItemStore

namespace Value

/-- The bytes of a binary value. -/
def data : Value → List UInt8
  | .bytes _ d => d
  | _ => []

/-- The wire value of a set of the given shape. -/
def setWire (shape : Shape) (xs : List Value) : Except Fault Wire :=
  match shape with
  | .textSet => .ok (.ss (xs.map shown))
  | .numberSet => .ns <$> xs.mapM toText
  | _ => .ok (.bs (xs.map data))

mutual

/-- A plain value as a wire value. -/
def toWire : Value → Except Fault Wire
  | .null => .ok .null
  | .bool b => .ok (.bool b)
  | .text s => .ok (.s s)
  | .int n => .n <$> toText (.int n)
  | .float x => .ok (if x.isFinite then .n (String.ofList x.text) else .null)
  | .decimal d => .ok (if d.isFinite then .n (String.ofList d.text) else .null)
  | .bytes _ d => .ok (.b d)
  | .date d => .ok (.s d.isoText)
  | .timestamp t => .ok (.s (t.isoText "T"))
  | .foreign => .ok .null
  | .map es => do return .m (Entries.ofPairs (← toWireFields es))
  | .seq _ xs =>
    match sequenceShape xs with
    | .list => .l <$> toWireAll xs
    | shape => setWire shape xs

/-- Plain values as wire values. -/
def toWireAll : List Value → Except Fault (List Wire)
  | [] => .ok []
  | x :: xs => do
    let w ← toWire x
    return w :: (← toWireAll xs)

/-- The entries of a map as attributes: a key gives its text as the name. -/
def toWireFields : List (Value × Value) → Except Fault (List (String × Wire))
  | [] => .ok []
  | (k, v) :: es => do
    let name ← k.toText
    let w ← toWire v
    return (name, w) :: (← toWireFields es)

end

/-- The attributes of a map. Keys with the same text give one attribute, of the last value. -/
def toItem (v : Value) : Except Fault Item := do
  return Entries.ofPairs (← toWireFields (← v.entries))

end Value

end ItemStore
