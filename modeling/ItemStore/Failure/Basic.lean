import ItemStore.Failure.ServiceError

/-
  What an operation raises instead of an answer. Failures of this library carry a message, the
  failure that caused them and a context of values; those of its collaborators are kept as they
  are.
-/

namespace ItemStore

/-- What is raised instead of an answer. -/
inductive Failure where
  /-- A failure of the library with no closer kind. -/
  | general (message : String) (cause : Option Failure) (context : List (Value × Value))
  /-- Input, or a request, that does not hold to a rule. -/
  | validation (message : String) (errors : Value) (cause : Option Failure)
  /-- An expression that cannot be compiled; the offset is where what was not read starts. -/
  | compile (message : String) (source : String) (offset : Option Int)
  /-- A wire value that cannot be decoded. -/
  | marshal (message : String) (wire : Value) (cause : Option Failure)
  /-- No item, or no table, under a key. -/
  | itemNotFound (table : String) (key : Value) (cause : Option Failure)
  /-- A write that does not go with what is stored. -/
  | conflict (message : String) (resource : Value) (cause : Option Failure)
  /-- The service cannot be reached, or refuses the caller. -/
  | connection (message : String) (cause : Option Failure) (context : List (Value × Value))
  /-- A failure that may pass; the requests that were left over, where there are some. -/
  | retryable (message : String) (retryAfter : Value) (cause : Option Failure)
      (unprocessed : Option (List Value))
  /-- An error reply that no operation has interpreted. -/
  | service (error : ServiceError)
  | incident (what : Incident)
  /-- Fields that do not take their values. -/
  | invalid (issues : List Issue)
  | fault (what : Fault)
  deriving Inhabited

/-- The answer of an operation, or what it raises. -/
abbrev Outcome (α : Type) := Except Failure α

/-- An outcome of an operation on values. -/
def Outcome.ofFault {α : Type} : Except Fault α → Outcome α
  | .ok a => .ok a
  | .error f => .error (.fault f)

end ItemStore
