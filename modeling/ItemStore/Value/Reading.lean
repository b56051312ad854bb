import ItemStore.Failure.Fault
import ItemStore.Number.Reading

/-
  Values read as something: the fields of a map, the elements of what can be gone through, the
  pairs of what makes a map, an integer, bytes, a text. What a value's kind does not allow is a
  fault.
-/

namespace ItemStore

namespace Value

/-- The entries of a map. -/
def entries : Value → Except Fault (List (Value × Value))
  | .map es => .ok es
  | _ => .error .noOperation

/-- The value of a map under a text key, if there is one. -/
def field? (v : Value) (name : String) : Except Fault (Option Value) := do
  let es ← v.entries
  return Entries.get? (.text name) es

/-- The value of a map under a text key, or a stand-in. -/
def fieldD (v : Value) (name : String) (standIn : Value) : Except Fault Value := do
  return (← v.field? name).getD standIn

/-- The value of a map under a text key that has to be there. -/
def field : Value → String → Except Fault Value
  | .map es, name =>
    match Entries.get? (.text name) es with
    | some v => .ok v
    | none => .error .missingKey
  | _, _ => .error .wrongKind

/-- The elements that a value is gone through as: those of a sequence, the keys of a map, the
characters of a text, the numbers of bytes. -/
def elements : Value → Except Fault (List Value)
  | .seq _ xs => .ok xs
  | .map es => .ok (es.map (·.1))
  | .text s => .ok (s.toList.map fun c => .text (String.singleton c))
  | .bytes _ data => .ok (data.map fun b => .int b.toNat)
  | _ => .error .wrongKind

/-- The number of elements. -/
def size (v : Value) : Except Fault Nat := do
  return (← v.elements).length

/-- Two elements, as key and value. -/
def pair (v : Value) : Except Fault (Value × Value) := do
  match ← v.elements with
  | [k, x] => if k.isHashable then return (k, x) else throw .wrongKind
  | _ => throw .badValue

/-- The map that a value makes: its own entries, or the pairs it is gone through as. -/
def toEntries : Value → Except Fault (List (Value × Value))
  | .map es => .ok es
  | v => do
    let pairs ← (← v.elements).mapM pair
    return Entries.ofPairs pairs

/-- The integer part of a number, or the integer that a text writes. -/
def toInt : Value → Except Fault Int
  | .bool b => .ok (if b then 1 else 0)
  | .int n => .ok n
  | .float (.finite s m q) =>
    let n : Int := Number.Binary64.floorSize m q
    .ok (if s then -n else n)
  | .float .nan => .error .badValue
  | .float (.infinity _) => .error .tooLarge
  | .decimal (.finite s c e) =>
    let n : Int := if e < 0 then c / Nat.pow 10 e.natAbs else c * Nat.pow 10 e.natAbs
    .ok (if s then -n else n)
  | .decimal (.nan ..) => .error .badValue
  | .decimal (.infinity _) => .error .tooLarge
  | .text s => (Number.readInt? s.toList).elim (.error .badValue) .ok
  | .bytes _ data => (Number.readInt? (data.map asAscii)).elim (.error .badValue) .ok
  | _ => .error .wrongKind
where
  /-- A byte as an ASCII character; a byte beyond ASCII as one that no number holds. -/
  asAscii (b : UInt8) : Char :=
    if b < 128 then Char.ofNat b.toNat else '?'

/-- A number of a byte. -/
def toByte (v : Value) : Except Fault UInt8 :=
  match v with
  | .int n => if 0 ≤ n ∧ n < 256 then .ok (UInt8.ofNat n.toNat) else .error .badValue
  | .bool b => .ok (if b then 1 else 0)
  | _ => .error .wrongKind

/-- The bytes that a value makes: its own, that many zeros, or the numbers it is gone through
as. -/
def toBytes : Value → Except Fault (List UInt8)
  | .bytes _ data => .ok data
  | .int n =>
    if n < -Nat.pow 2 63 ∨ Nat.pow 2 63 ≤ n then .error .tooLarge
    else if n < 0 then .error .badValue
    else .ok (List.replicate n.toNat 0)
  | .bool b => .ok (if b then [0] else [])
  | .text _ => .error .wrongKind
  | v => do (← v.elements).mapM toByte

/-- The text of a value, as it shows on its own. -/
def toText (v : Value) : Except Fault String :=
  if v.isWritable then .ok v.shown else .error .badValue

/-- Whether a value is the given text. -/
def isText (v : Value) (s : String) : Bool :=
  v == .text s

end Value

end ItemStore
