import ItemStore.Number.Shortest
import ItemStore.Value.Calendar
import ItemStore.Value.Entries

/-
  Plain values: what callers store and get back, and what the service is sent and answers. Maps
  keep the order of their entries and may have keys of any kind; as keys, values of different
  number kinds are the same when they are the same number.
-/

namespace ItemStore

open Number (Binary64 Decimal)

/-- The three kinds of binary value: fixed bytes, a changeable buffer, a view of one. -/
inductive BytesKind where
  | fixed
  | buffer
  | view
  deriving DecidableEq, Inhabited

/-- The kinds of sequence. -/
inductive SeqKind where
  | list
  | tuple
  | set
  | frozenSet
  deriving DecidableEq, Inhabited

/-- A plain value. -/
inductive Value where
  | null
  | bool (b : Bool)
  | int (n : Int)
  | float (x : Binary64)
  | decimal (d : Decimal)
  | text (s : String)
  | bytes (kind : BytesKind) (data : List UInt8)
  | seq (kind : SeqKind) (elements : List Value)
  | date (d : Date)
  | timestamp (t : Timestamp)
  /-- A value of no kind that can be stored. -/
  | foreign
  | map (entries : List (Value × Value))
  deriving Inhabited

/-- Names with values, in order: fields, options, or the parameters of a request. -/
abbrev Params := List (String × Value)

namespace Value

/-- A list of values. -/
abbrev list (elements : List Value) : Value :=
  .seq .list elements

/-- A map with text keys. -/
def record (fields : Params) : Value :=
  .map (fields.map fun f => (.text f.1, f.2))

/-- The number a value is, in lowest form; none for a not-a-number and what is no number. -/
def number? : Value → Option Decimal
  | .bool b => some (if b then .finite false 1 0 else .finite false 0 0)
  | .int n => some (lowest (.ofInt n))
  | .float .nan => none
  | .float x => some (lowest x.toDecimal)
  | .decimal (.nan ..) => none
  | .decimal d => some (lowest d)
  | _ => none
where
  /-- The decimal of the same number with the least coefficient. -/
  lowest : Decimal → Decimal
    | .finite s c e =>
      let (s, c, e) := Decimal.lowest s c e
      .finite s c e
    | d => d

/-- Whether two kinds of sequence can be equal. -/
def sameSeqKind : SeqKind → SeqKind → Bool
  | .list, k => k == .list
  | .tuple, k => k == .tuple
  | _, k => k == .set || k == .frozenSet

mutual

/-- Whether two values are the same key of a map. -/
def same : Value → Value → Bool
  | .null, .null => true
  | .text s, .text t => s == t
  | .bytes _ a, .bytes _ b => a == b
  | .seq k xs, .seq l ys => sameSeqKind k l && sameAll xs ys
  | .date a, .date b => a == b
  | .timestamp a, .timestamp b => a.sameMoment b
  | a, b =>
    match a.number?, b.number? with
    | some x, some y => x == y
    | _, _ => false

/-- Whether two lists hold the same keys at the same places. -/
def sameAll : List Value → List Value → Bool
  | [], [] => true
  | x :: xs, y :: ys => same x y && sameAll xs ys
  | _, _ => false

end

instance : BEq Value := ⟨same⟩

mutual

/-- Whether a value can be a key of a map. -/
def isHashable : Value → Bool
  | .bytes .buffer _ => false
  | .seq .tuple xs => allHashable xs
  | .seq .frozenSet _ => true
  | .seq _ _ => false
  | .map _ => false
  | .decimal (.nan signaling _ _) => !signaling
  | _ => true

/-- Whether all values of a list can be keys. -/
def allHashable : List Value → Bool
  | [] => true
  | x :: xs => isHashable x && allHashable xs

end

/-- Whether a value counts as present: not null, false, zero or empty. -/
def isTruthy : Value → Bool
  | .null => false
  | .bool b => b
  | .int n => n != 0
  | .float (.finite _ m _) => m != 0
  | .decimal (.finite _ c _) => c != 0
  | .text s => s != ""
  | .bytes _ data => !data.isEmpty
  | .seq _ xs => !xs.isEmpty
  | .map es => !es.isEmpty
  | _ => true

end Value

end ItemStore
