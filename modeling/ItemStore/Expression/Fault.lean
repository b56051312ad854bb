import ItemStore.Failure.Report

/-
  Why an expression cannot be compiled, and where: the offset is the position, in characters of
  the source, at which the part that was not read starts.
-/

namespace ItemStore.Expression

/-- What is wrong with an expression. -/
inductive Fault where
  | unclosedName
  | unclosedText
  | unmatchedClose
  | unmatchedOpen
  /-- No attribute name where one has to stand, with the offset of that place. -/
  | missingName (offset : Nat)
  | unclosedLiteral
  /-- A boolean literal with another payload than `true` or `false`. -/
  | notBoolean (payload : List Char)
  | emptyPath
  | malformedPath (payload : List Char)
  deriving DecidableEq, Inhabited

/-- A fault with the source it is in and its offset there. -/
structure Error where
  fault : Fault
  source : List Char
  offset : Nat
  deriving DecidableEq, Inhabited

/-- A fault in words. -/
def Fault.message : Fault → String
  | .unclosedName => "Unterminated quoted attribute name"
  | .unclosedText => "Unterminated string literal"
  | .unmatchedClose => "Unbalanced ')'"
  | .unmatchedOpen => "Unbalanced '(' before end of input"
  | .missingName offset => "Expected an attribute name at offset " ++ natText offset
  | .unclosedLiteral => "End of input before closing parenthesis"
  | .notBoolean payload =>
    "BOOL literal must be true or false, got " ++ Text.quoted (String.ofList payload)
  | .emptyPath => "Empty $() attribute path"
  | .malformedPath payload => "Invalid attribute path " ++ Text.quoted (String.ofList payload)

/-- An error as the failure that callers see. -/
def Error.toFailure (e : Error) : Failure :=
  .compile e.fault.message (String.ofList e.source) (some e.offset)

end ItemStore.Expression
