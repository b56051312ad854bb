import ItemStore.Expression.Compiled
import ItemStore.Failure.Basic

/-
  The connection to the service: the requests that were sent and the replies that are still to
  come. Each request takes one reply; when none is left, the request fails.
-/

namespace ItemStore

/-- The operations of the service. -/
inductive Operation where
  | describeTable
  | query
  | scan
  | getItem
  | putItem
  | updateItem
  | deleteItem
  | batchWriteItem
  | batchGetItem
  deriving DecidableEq, Inhabited

namespace Operation

/-- An operation as failures tell it. -/
def name : Operation → String
  | .describeTable => "DescribeTable"
  | .query => "Query"
  | .scan => "Scan"
  | .getItem => "GetItem"
  | .putItem => "PutItem"
  | .updateItem => "UpdateItem"
  | .deleteItem => "DeleteItem"
  | .batchWriteItem => "BatchWriteItem"
  | .batchGetItem => "BatchGetItem"

/-- The method that is called for an operation. -/
def method : Operation → String
  | .describeTable => "describe_table"
  | .query => "query"
  | .scan => "scan"
  | .getItem => "get_item"
  | .putItem => "put_item"
  | .updateItem => "update_item"
  | .deleteItem => "delete_item"
  | .batchWriteItem => "batch_write_item"
  | .batchGetItem => "batch_get_item"

end Operation

/-- A request: an operation with its parameters. -/
structure Request where
  operation : Operation
  params : Params
  deriving Inhabited

/-- A connection. -/
structure Link where
  replies : List (Outcome Value) := []
  sent : List Request := []
  /-- What a request meets that gets no reply. -/
  silence : Failure := .general "No reply" none []
  deriving Inhabited

/-- An operation over a connection. What was sent stays sent when it fails. -/
def Exchange (α : Type) := Link → Outcome α × Link

namespace Link

/-- The reply to a request. -/
def send (r : Request) : Exchange Value := fun l =>
  match l.replies with
  | [] => (.error l.silence, { l with sent := l.sent ++ [r] })
  | reply :: rest => (reply, { l with replies := rest, sent := l.sent ++ [r] })

theorem send_replies {r : Request} {l l' : Link} {v : Value} (h : send r l = (.ok v, l')) :
    l.replies = .ok v :: l'.replies := by
  unfold send at h
  split at h
  · simp at h
  · next reply rest hr =>
    simp only [Prod.mk.injEq] at h
    rw [hr, h.1, ← h.2]

end Link

namespace Exchange

variable {α β : Type}

/-- An outcome that needs no reply. -/
def done (r : Outcome α) : Exchange α := fun l =>
  (r, l)

/-- An operation, then one with its answer. -/
def andThen (x : Exchange α) (f : α → Exchange β) : Exchange β := fun l =>
  match x l with
  | (.ok a, l) => f a l
  | (.error e, l) => (.error e, l)

instance : Monad Exchange where
  pure a := done (.ok a)
  bind := andThen

instance : MonadExceptOf Failure Exchange where
  throw e := done (.error e)
  tryCatch x handle := fun l =>
    match x l with
    | (.ok a, l) => (.ok a, l)
    | (.error e, l) => handle e l

instance : MonadLift Outcome Exchange where
  monadLift := done

end Exchange

end ItemStore
