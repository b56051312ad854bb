import ItemStore.Wire.Basic

/-
  The shape of a plain value decides the tag it is stored under. A sequence is a set of texts,
  of numbers or of binaries when it is not empty and all its elements are of that one shape;
  any other sequence is a list. Booleans are no numbers, and a number has to be finite.
-/

namespace ItemStore

/-- The shapes of plain values. -/
inductive Shape where
  | text
  | number
  | boolean
  | null
  | binary
  | timestamp
  | map
  | list
  | textSet
  | numberSet
  | binarySet
  | unsupported
  deriving DecidableEq, Inhabited

namespace Shape

/-- A shape as text. -/
def name : Shape → String
  | .text => "string"
  | .number => "number"
  | .boolean => "boolean"
  | .null => "null"
  | .binary => "binary"
  | .timestamp => "timestamp"
  | .map => "map"
  | .list => "list"
  | .textSet => "string_set"
  | .numberSet => "number_set"
  | .binarySet => "binary_set"
  | .unsupported => "unsupported"

end Shape

namespace Value

/-- The shape of a value that is neither a map nor a sequence; those two are unsupported as
elements of a set. -/
def scalarShape : Value → Shape
  | .null => .null
  | .bool _ => .boolean
  | .text _ => .text
  | .int _ => .number
  | .float x => if x.isFinite then .number else .unsupported
  | .decimal d => if d.isFinite then .number else .unsupported
  | .bytes _ _ => .binary
  | .date _ => .timestamp
  | .timestamp _ => .timestamp
  | .foreign => .unsupported
  | .seq _ _ => .unsupported
  | .map _ => .unsupported

/-- Whether a list is not empty and all its elements have the given shape. -/
def allOfShape (shape : Shape) (xs : List Value) : Bool :=
  !xs.isEmpty && xs.all fun x => x.scalarShape == shape

/-- The shape of a sequence. -/
def sequenceShape (xs : List Value) : Shape :=
  if allOfShape .text xs then .textSet
  else if allOfShape .number xs then .numberSet
  else if allOfShape .binary xs then .binarySet
  else .list

/-- The shape of a value. -/
def shape : Value → Shape
  | .map _ => .map
  | .seq _ xs => sequenceShape xs
  | v => v.scalarShape

end Value

end ItemStore
