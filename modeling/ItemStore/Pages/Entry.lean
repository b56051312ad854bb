import ItemStore.Fields.Types
import ItemStore.Keys.Key

/-
  What a read over pages gives one at a time: an item as its key values and the map of its other
  attributes, or the failure that ended the read.
-/

namespace ItemStore

/-- One element of a read. -/
structure Entry where
  key : List Value := []
  value : List (String × Value) := []
  error : Option Failure := none
  deriving Inhabited

namespace Entry

/-- Whether the entry is an item. -/
def isItem (e : Entry) : Bool :=
  e.error.isNone

/-- The entry of a failure. -/
def ofFailure (f : Failure) : Entry :=
  { error := some f }

/-- An entry from fields. -/
def ofFields (fields : Params) (error : Option Failure) : Outcome Entry :=
  Checked.toOutcome
    (Entry.mk <$> fieldOr fields "key" [] Field.elements
      <*> fieldOr fields "value" [] (Field.mapping Field.anything)
      <*> pure error)

/-- The entry of an item. Its attributes have to have text names. -/
def ofItem (s : Schema) (decimalNumbers : Bool) (item : Value) : Outcome Entry := do
  let (key, value) ← s.split item decimalNumbers
  ofFields [("key", .list key), ("value", .map value)] none

end Entry

end ItemStore
