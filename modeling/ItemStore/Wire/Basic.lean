import ItemStore.Value.Reading

/-
  Wire values: the tagged form in which the service stores attributes. Each carries exactly one
  of ten tags with a payload of that tag's type. `Wire.toValue` is the map with one entry that
  is sent and received for it.
-/

namespace ItemStore

/-- The type tags of the wire form. -/
inductive Tag where
  | s
  | n
  | bool
  | null
  | b
  | m
  | l
  | ss
  | ns
  | bs
  deriving DecidableEq, Inhabited

namespace Tag

/-- A tag as text. -/
def text : Tag → String
  | .s => "S"
  | .n => "N"
  | .bool => "BOOL"
  | .null => "NULL"
  | .b => "B"
  | .m => "M"
  | .l => "L"
  | .ss => "SS"
  | .ns => "NS"
  | .bs => "BS"

/-- All tags. -/
def all : List Tag :=
  [.s, .n, .bool, .null, .b, .m, .l, .ss, .ns, .bs]

/-- The tag that a value names. -/
def ofValue? (v : Value) : Option Tag :=
  all.find? fun t => v.isText t.text

end Tag

/-- A wire value. -/
inductive Wire where
  | s (text : String)
  | n (text : String)
  | bool (flag : Bool)
  | null
  | b (data : List UInt8)
  | m (fields : List (String × Wire))
  | l (elements : List Wire)
  | ss (texts : List String)
  | ns (texts : List String)
  | bs (parts : List (List UInt8))
  deriving Inhabited

/-- An item: attribute names with their wire values, in order. -/
abbrev Item := List (String × Wire)

namespace Wire

/-- A payload under its tag. -/
def tagged (tag : Tag) (payload : Value) : Value :=
  .record [(tag.text, payload)]

mutual

/-- A wire value as the map that carries it. -/
def toValue : Wire → Value
  | .s t => tagged .s (.text t)
  | .n t => tagged .n (.text t)
  | .bool flag => tagged .bool (.bool flag)
  | .null => tagged .null (.bool true)
  | .b data => tagged .b (.bytes .fixed data)
  | .m fields => tagged .m (.map (toValueFields fields))
  | .l elements => tagged .l (.list (toValueAll elements))
  | .ss texts => tagged .ss (.list (texts.map .text))
  | .ns texts => tagged .ns (.list (texts.map .text))
  | .bs parts => tagged .bs (.list (parts.map (.bytes .fixed)))

/-- The maps that carry a list of wire values. -/
def toValueAll : List Wire → List Value
  | [] => []
  | w :: ws => toValue w :: toValueAll ws

/-- The entries that carry the attributes of an item. -/
def toValueFields : List (String × Wire) → List (Value × Value)
  | [] => []
  | (name, w) :: fields => (.text name, toValue w) :: toValueFields fields

end

end Wire

/-- An item as the map that carries it. -/
def Item.toValue (item : Item) : Value :=
  .map (Wire.toValueFields item)

end ItemStore
