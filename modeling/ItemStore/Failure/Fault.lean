import ItemStore.Value.Printing

/-
  The smallest failures. A `Fault` is a value used in a way its kind does not allow; an `Issue`
  is a field that does not take its value; an `Incident` is what a collaborator raised of its
  own.
-/

namespace ItemStore

/-- A value used in a way its kind does not allow. -/
inductive Fault where
  /-- A value of the wrong kind, or a call with the wrong arguments. -/
  | wrongKind
  /-- An operation that the value does not have. -/
  | noOperation
  /-- A value of the right kind that is out of range or of the wrong form. -/
  | badValue
  /-- A key that the map does not have. -/
  | missingKey
  /-- A text that is no decimal. -/
  | badDecimal
  /-- A number too large for its use. -/
  | tooLarge
  deriving DecidableEq, Inhabited

/-- Why a field does not take a value. -/
inductive IssueKind where
  | textType
  | textEncoding
  | integerType
  | integerText
  | integerSize
  | fraction
  | notFinite
  | floatType
  | floatText
  | boolType
  | boolText
  | choice
  | listType
  | mapType
  /-- The rule of the field itself, in words. -/
  | rule (message : String)
  | unknownField
  | frozen
  deriving DecidableEq, Inhabited

/-- A field that does not take its value, by the path to it. -/
structure Issue where
  path : List Value
  kind : IssueKind
  deriving Inhabited

/-- What a collaborator raised that is no failure of the service: its name and message. -/
structure Incident where
  name : String
  message : String := ""
  /-- A failed look-up tells the key that it missed, quoted. -/
  isLookup : Bool := false
  deriving DecidableEq, Inhabited

namespace Incident

/-- The text of an incident. -/
def text (i : Incident) : String :=
  if i.isLookup then Text.quoted i.message else i.message

/-- An incident as it shows inside other values. -/
def quoted (i : Incident) : String :=
  i.name ++ "(" ++ Text.quoted i.message ++ ")"

end Incident

end ItemStore
