import ItemStore.Value.Reading

/-
  Error replies of the service. A reply may name a code, a message, and the number of retries
  after which the client gave up.
-/

namespace ItemStore

/-- An error reply to one of the service's operations. -/
structure ServiceError where
  operation : String
  code : Option Value := none
  message : Option Value := none
  retries : Option Value := none
  deriving Inhabited

namespace ServiceError

/-- The retries after which the client gave up, if the metadata of the reply say so. -/
def retriesOf (response : Value) : Except Fault (Option Value) := do
  match ← response.field? "ResponseMetadata" with
  | none => return none
  | some metadata =>
    let reached ← metadata.fieldD "MaxAttemptsReached" (.bool false)
    if reached.isTruthy then metadata.field? "RetryAttempts" else return none

/-- The error that a reply tells. -/
def ofReply (response : Value) (operation : String) : Except Fault ServiceError := do
  let retries ← retriesOf response
  let error ← response.fieldD "Error" (.map [])
  let code ← error.field? "Code"
  let message ← error.field? "Message"
  return { operation, retries, code, message }

/-- A part of a reply in words. -/
def inWords (part : Option Value) : String :=
  (part.map Value.shown).getD "Unknown"

/-- The reply as a sentence. -/
def text (e : ServiceError) : String :=
  let gaveUp := e.retries.map fun n => " (reached max retries: " ++ n.shown ++ ")"
  "An error occurred (" ++ inWords e.code ++ ") when calling the " ++ e.operation ++
    " operation" ++ gaveUp.getD "" ++ ": " ++ inWords e.message

end ServiceError

end ItemStore
