import ItemStore.Failure.Report

/-
  What the error codes of the service mean to a caller: a conflict with what is stored, a state
  that may pass, a request that breaks a rule, or an access that is refused. Codes outside the
  table are told as failures of the connection.
-/

namespace ItemStore

/-- What an error code means to a caller. -/
inductive Meaning where
  | conflict
  | passing
  | rule
  | access
  deriving DecidableEq, Inhabited

namespace ServiceError

/-- The codes with their meaning, in words too. -/
def meanings : List (String × Meaning × String) :=
  [("ConditionalCheckFailedException", .conflict, "Conditional check failed"),
   ("TransactionConflictException", .conflict, "Transaction conflict"),
   ("ResourceInUseException", .conflict, "Resource in use"),
   ("DuplicateTransactionException", .conflict, "Duplicate transaction"),
   ("ProvisionedThroughputExceededException", .passing, "Throttling"),
   ("RequestLimitExceeded", .passing, "Throttling"),
   ("ThrottlingException", .passing, "Throttling/rate limiting"),
   ("TooManyRequestsException", .passing, "Throttling/rate limiting"),
   ("InternalServerError", .passing, "Service unavailable"),
   ("ServiceUnavailable", .passing, "Service unavailable"),
   ("ServiceUnavailableException", .passing, "Service unavailable"),
   ("InternalFailure", .passing, "Service error"),
   ("TransactionCanceledException", .passing, "Transaction issue"),
   ("TransactionInProgressException", .passing, "Transaction issue"),
   ("RequestTimeoutException", .passing, "Request timeout"),
   ("ValidationException", .rule, "Validation failed"),
   ("ItemCollectionSizeLimitExceededException", .rule, "Item collection size limit exceeded"),
   ("LimitExceededException", .rule, "DynamoDB limit exceeded"),
   ("IdempotentParameterMismatchException", .rule, "Idempotent parameter mismatch"),
   ("UnrecognizedClientException", .access, "Authentication/authorization failed"),
   ("AccessDeniedException", .access, "Authentication/authorization failed"),
   ("InvalidSignatureException", .access, "Invalid endpoint or signature"),
   ("IncompleteSignatureException", .access, "Invalid endpoint or signature"),
   ("ExpiredTokenException", .access, "Token expired")]

/-- The code of a missing table, or of a missing resource. -/
def missingResource : String :=
  "ResourceNotFoundException"

/-- The meaning of a code. -/
def meaning? (code : String) : Option (Meaning × String) :=
  (meanings.find? fun m => m.1 == code).map (·.2)

/-- The code of the reply as text; empty, which is no code, when it is no text. -/
def codeText (e : ServiceError) : String :=
  match e.code with
  | some (.text s) => s
  | _ => ""

/-- Where an error happened and what the reply says of it. -/
def account (e : ServiceError) (operation table : String) (resource : Value) : String :=
  let place := operation ++ " on " ++ table
  let place :=
    if resource.isTruthy then place ++ " (resource: " ++ resource.shown ++ ")" else place
  place ++ ": " ++ (e.message.map Value.shown).getD e.text

/-- The failure of a code's meaning. -/
def ofMeaning (m : Meaning) (text : String) (resource : Value) (cause : Failure) : Failure :=
  match m with
  | .conflict => .conflict text resource (some cause)
  | .passing => .retryable text .null (some cause) none
  | .rule => .validation text (.map []) (some cause)
  | .access => .connection text (some cause) []

/-- The failure that an error reply stands for, for the operation on a table that it answers.
The reply is kept as its cause. -/
def interpret (e : ServiceError) (operation table : String) (resource : Value) : Failure :=
  let account := e.account operation table resource
  match meaning? e.codeText with
  | some (m, words) => ofMeaning m (words ++ " - " ++ account) resource (.service e)
  | none =>
    if e.codeText = missingResource then
      if resource.isTruthy then
        .itemNotFound table (.record [("resource_id", resource)]) (some (.service e))
      else .connection ("Table not found - " ++ account) (some (.service e)) []
    else .connection ("DynamoDB operation failed - " ++ account) (some (.service e)) []

end ServiceError

namespace Failure

/-- A failure with an error reply interpreted; a code that cannot be looked up is a fault, and
any other failure stays as it is. -/
def interpreted (operation table : String) (resource : Value) : Failure → Failure
  | .service e =>
    if e.code.all Value.isHashable then e.interpret operation table resource else .fault .wrongKind
  | f => f

end Failure

end ItemStore
