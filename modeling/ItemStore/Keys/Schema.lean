import ItemStore.Fields.Types
import ItemStore.Wire.Basic

/-
  The key of a table: the names and types of its hash attribute and, where it has one, of its
  range attribute. A schema need not be complete; it is ready when the hash attribute is known.
-/

namespace ItemStore

/-- The types of key attributes. -/
inductive KeyType where
  | text
  | number
  | binary
  deriving DecidableEq, Inhabited

namespace KeyType

/-- The wire tag of a key type. -/
def tag : KeyType → Tag
  | .text => .s
  | .number => .n
  | .binary => .b

/-- A key type as text. -/
def name (t : KeyType) : String :=
  t.tag.text

/-- The key type of a name. -/
def ofName? (s : String) : Option KeyType :=
  [KeyType.text, .number, .binary].find? fun t => t.name == s

end KeyType

/-- The key attributes of a table, as far as they are known. -/
structure Schema where
  hashKey : Option String := none
  hashType : Option KeyType := none
  rangeKey : Option String := none
  rangeType : Option KeyType := none
  deriving DecidableEq, Inhabited

namespace Schema

/-- A name that is given and not empty. -/
def named? (name : Option String) : Option String :=
  name.filter (· ≠ "")

/-- The name and type of an attribute, when both are known. -/
def attribute? (name : Option String) (type : Option KeyType) : Option (String × KeyType) :=
  match named? name, type with
  | some n, some t => some (n, t)
  | _, _ => none

/-- The hash attribute. -/
def hash? (s : Schema) : Option (String × KeyType) :=
  attribute? s.hashKey s.hashType

/-- The range attribute. -/
def range? (s : Schema) : Option (String × KeyType) :=
  attribute? s.rangeKey s.rangeType

/-- Whether keys can be built. -/
def isReady (s : Schema) : Bool :=
  s.hash?.isSome

/-- The names of the key attributes, hash before range. -/
def keyNames (s : Schema) : List String :=
  (named? s.hashKey).toList ++ (named? s.rangeKey).toList

/-- A schema from fields; fields of other names are passed over. -/
def ofFields (fields : Params) : Outcome Schema :=
  let name (field : String) := fieldOr fields field none (Field.optional Field.text)
  let type (field : String) :=
    fieldOr fields field none (Field.optional (Field.choice KeyType.ofName?))
  Checked.toOutcome
    (Schema.mk <$> name "hash_key" <*> type "hash_type" <*> name "range_key" <*> type "range_type")

/-- A schema never changes: setting any of its attributes is refused. -/
def set (_ : Schema) (name : String) : Outcome Schema :=
  .error (.invalid [⟨[.text name], .frozen⟩])

end Schema

end ItemStore
