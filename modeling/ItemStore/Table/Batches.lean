import ItemStore.Table.Writes

/-
  Writes and reads of many items, in chunks of the size that the service takes. What the service
  leaves over is collected over all chunks and told in one failure.
-/

namespace ItemStore

namespace Table

/-- The most writes that one request takes. -/
def writeChunk : Nat := 25

/-- The most keys that one request takes. -/
def readChunk : Nat := 100

/-- The list in chunks of the given size, the last one with what is left. -/
def chunks {α : Type} (size : Nat) (xs : List α) : List (List α) :=
  match xs with
  | [] => []
  | x :: rest => (x :: rest.take (size - 1)) :: chunks size (rest.drop (size - 1))
termination_by xs.length
decreasing_by
  simp only [List.length_drop, List.length_cons]
  omega

/-- The failure of requests that were left over. -/
def leftOver (unprocessed : List Value) (total : Nat) (kind : String) : Failure :=
  .retryable
    (natText unprocessed.length ++ " of " ++ natText total ++ " batch " ++ kind ++
      " were not processed")
    .null none (some unprocessed)

/-- The parts of an entry of a batch, which has to have the given number. -/
def parts (n : Nat) (entry : Value) : Outcome (List Value) := do
  let xs ← Outcome.ofFault entry.elements
  if xs.length = n then return xs else throw (.fault .badValue)

/-- The request of an entry of hash, range and value: a delete where the value is null, else a
put. -/
def writeRequest (t : Table) (entry : Value) : Outcome Value := do
  match ← parts 3 entry with
  | [hash, range, .null] =>
    let key ← t.requireKey hash range
    return .record [("DeleteRequest", .record [("Key", key.toValue)])]
  | [hash, range, value] =>
    let item ← t.keyedItem hash range value
    return .record [("PutRequest", .record [("Item", item.toValue)])]
  | _ => throw (.fault .badValue)

/-- The requests of all entries. -/
def writeRequests (t : Table) (entries : Value) : Outcome (List Value) := do
  (← Outcome.ofFault entries.elements).mapM t.writeRequest

/-- The key of an entry of hash and range. -/
def readKey (t : Table) (entry : Value) : Outcome Value := do
  match ← parts 2 entry with
  | [hash, range] => return (← t.requireKey hash range).toValue
  | _ => throw (.fault .badValue)

/-- The keys of all entries. -/
def readKeys (t : Table) (entries : Value) : Outcome (List Value) := do
  (← Outcome.ofFault entries.elements).mapM t.readKey

/-- The plain maps of items. -/
def plainAll (t : Table) (items : List Value) : Outcome (List Value) :=
  items.mapM t.plain

/-- What a reply holds for the table under a field. -/
def replyFor (t : Table) (reply : Value) (field : String) (standIn : Value) : Outcome Value := do
  let all ← Outcome.ofFault (reply.fieldD field (.map []))
  Outcome.ofFault (all.fieldD t.name standIn)

/-- Sends chunks of writes and collects what is left over. -/
def sendWrites (t : Table) : List (List Value) → Exchange (List Value)
  | [] => return []
  | chunk :: rest => do
    let reply ← t.gateway.batchWrite (.list chunk) []
    let unprocessed ← t.replyFor reply "UnprocessedItems" (.list [])
    let xs ← Outcome.ofFault unprocessed.elements
    return xs ++ (← t.sendWrites rest)

/-- Writes and deletes many items. -/
def batchWrite (t : Table) (entries : Value) : Exchange Unit := do
  let requests ← t.writeRequests entries
  let unprocessed ← t.sendWrites (chunks writeChunk requests)
  if !unprocessed.isEmpty then
    throw (leftOver unprocessed requests.length "write requests")

/-- The keys that a reply leaves over. -/
def unprocessedKeys (t : Table) (reply : Value) : Outcome (List Value) := do
  let batch ← t.replyFor reply "UnprocessedKeys" (.map [])
  let keys ← Outcome.ofFault (batch.fieldD "Keys" (.list []))
  Outcome.ofFault keys.elements

/-- Sends chunks of keys and collects the items and what is left over. -/
def sendReads (t : Table) (options : Params) :
    List (List Value) → Exchange (List Value × List Value)
  | [] => return ([], [])
  | chunk :: rest => do
    let reply ← t.gateway.batchGet (.list chunk) options
    let items ← Outcome.ofFault (← t.replyFor reply "Responses" (.list [])).elements
    let unprocessed ← t.unprocessedKeys reply
    let (moreItems, moreKeys) ← t.sendReads options rest
    return (items ++ moreItems, unprocessed ++ moreKeys)

/-- The items under many keys as plain maps, in the order of the replies. -/
def batchRead (t : Table) (entries projection : Value) : Exchange Value := do
  let keys ← t.readKeys entries
  let (items, unprocessed) ← t.sendReads (projectionParams projection) (chunks readChunk keys)
  if !unprocessed.isEmpty then throw (leftOver unprocessed keys.length "read keys")
  return .list (← t.plainAll items)

end Table

end ItemStore
