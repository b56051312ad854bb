import ItemStore.Proofs.Table.Sends

/-
  What batches send. A batch makes the requests of its entries, each from the parts of its entry
  (`writeRequest_null`, `writeRequest_of_ne_null`, `readKey_of_elements`), and sends them in chunks,
  one after the other (`sendWrites_eq`, `sendReads_eq`). So a batch that succeeds has sent all of
  them (`sent_batchWrite`, `sent_batchRead`), and a batch of one entry sends its request whatever is
  replied (`batchWrite_sends`, `batchRead_sends`).
-/

namespace ItemStore

open Exchange

namespace Table

variable {t : Table} {hash range value : Value} {key item : Item}

theorem flatten_chunks {α : Type} (size : Nat) (xs : List α) : (chunks size xs).flatten = xs := by
  fun_induction chunks size xs with
  | case1 => rfl
  | case2 x rest ih => rw [List.flatten_cons, ih, List.cons_append, List.take_append_drop]

theorem exists_mem_chunks {α : Type} {size : Nat} {xs : List α} {x : α} (h : x ∈ xs) :
    ∃ chunk ∈ chunks size xs, x ∈ chunk := by
  rw [← flatten_chunks size xs] at h
  exact List.mem_flatten.mp h

/-- If all outcomes of a list are taken, that of each element is. -/
theorem mem_of_mapM {f : α → Outcome β} {xs : List α} {ys : List β} (h : xs.mapM f = .ok ys)
    {x : α} {y : β} (hx : x ∈ xs) (hy : f x = .ok y) : y ∈ ys := by
  have hmem : Except.ok y ∈ ys.map (Except.ok (ε := Failure)) := by
    rw [← map_of_mapM h, ← hy]
    exact List.mem_map_of_mem hx
  obtain ⟨y', hy', he⟩ := List.mem_map.mp hmem
  cases he
  exact hy'

/-- What has been gathered of all requests was asked for by all of them. -/
theorem sent_gather {call : α → Request} {read : Outcome Value → Outcome β} {xs : List α}
    {l : Link} {bs : List β} (h : (gather call read xs l).1 = .ok bs) :
    (gather call read xs l).2.sent = l.sent ++ xs.map call := by
  rcases gather_cases call read xs l with ⟨-, -, -, hsent⟩ | ⟨-, -, -, -, e, -, -, he, -⟩
  · exact hsent
  · rw [he] at h
    cases h

/-! ## Entries -/

/-- The request of a batch that deletes the item under a key. -/
def removal (key : Item) : Value :=
  .record [("DeleteRequest", .record [("Key", key.toValue)])]

/-- The request of a batch that puts an item. -/
def putRequest (item : Item) : Value :=
  .record [("PutRequest", .record [("Item", item.toValue)])]

theorem parts_of_elements {n : Nat} {entry : Value} {xs : List Value}
    (h : entry.elements = .ok xs) :
    parts n entry = if xs.length = n then .ok xs else .error (.fault .badValue) := by
  unfold parts
  rw [h]
  rfl

theorem parts_spec {n : Nat} {entry : Value} {xs : List Value} (h : parts n entry = .ok xs) :
    entry.elements = .ok xs ∧ xs.length = n := by
  cases helements : entry.elements with
  | error f =>
    rw [parts, helements] at h
    cases h
  | ok ys =>
    rw [parts_of_elements helements] at h
    split at h
    · next hlength =>
      cases h
      exact ⟨rfl, hlength⟩
    · cases h

/-- An entry without a value removes the item under its key. -/
theorem writeRequest_null {entry : Value} (h : entry.elements = .ok [hash, range, .null]) :
    t.writeRequest entry = removal <$> t.requireKey hash range := by
  have hopen : t.writeRequest entry = (do
      let key ← t.requireKey hash range
      return removal key) := by
    unfold writeRequest
    rw [parts_of_elements h]
    rfl
  rw [hopen]
  cases t.requireKey hash range <;> rfl

/-- Any other entry puts its value under its key. -/
theorem writeRequest_of_ne_null {entry : Value} (h : entry.elements = .ok [hash, range, value])
    (hne : value ≠ .null) :
    t.writeRequest entry = putRequest <$> t.keyedItem hash range value := by
  have hopen : t.writeRequest entry = (do
      let item ← t.keyedItem hash range value
      return putRequest item) := by
    unfold writeRequest
    rw [parts_of_elements h]
    cases value with
    | null => exact absurd rfl hne
    | _ => rfl
  rw [hopen]
  cases t.keyedItem hash range value <;> rfl

theorem readKey_of_elements {entry : Value} (h : entry.elements = .ok [hash, range]) :
    t.readKey entry = Item.toValue <$> t.requireKey hash range := by
  have hopen : t.readKey entry = (do
      return (← t.requireKey hash range).toValue) := by
    unfold readKey
    rw [parts_of_elements h]
    rfl
  rw [hopen]
  cases t.requireKey hash range <;> rfl

theorem map_eq_ok {α β : Type} {f : α → β} {x : Outcome α} {b : β} (h : f <$> x = .ok b) :
    ∃ a, x = .ok a ∧ b = f a := by
  cases x with
  | error e => cases h
  | ok a =>
    cases h
    exact ⟨a, rfl, rfl⟩

/-- What makes a write of a batch has three parts. -/
theorem elements_of_writeRequest {entry write : Value} (h : t.writeRequest entry = .ok write) :
    ∃ hash range value, entry.elements = .ok [hash, range, value] := by
  unfold writeRequest at h
  cases hparts : parts 3 entry with
  | error e =>
    rw [hparts] at h
    cases h
  | ok xs =>
    obtain ⟨helements, hlength⟩ := parts_spec hparts
    obtain ⟨hash, range, value, rfl⟩ := List.length_eq_three.mp hlength
    exact ⟨hash, range, value, helements⟩

theorem elements_of_readKey {entry v : Value} (h : t.readKey entry = .ok v) :
    ∃ hash range, entry.elements = .ok [hash, range] := by
  unfold readKey at h
  cases hparts : parts 2 entry with
  | error e =>
    rw [hparts] at h
    cases h
  | ok xs =>
    obtain ⟨helements, hlength⟩ := parts_spec hparts
    obtain ⟨hash, range, rfl⟩ := List.length_eq_two.mp hlength
    exact ⟨hash, range, helements⟩

theorem writeRequest_put (h : t.keyedItem hash range value = .ok item)
    (hne : value ≠ .null) (kind : SeqKind) :
    t.writeRequest (.seq kind [hash, range, value]) = .ok (putRequest item) := by
  rw [writeRequest_of_ne_null rfl hne, h]
  rfl

theorem readKey_eq (h : t.requireKey hash range = .ok key) (kind : SeqKind) :
    t.readKey (.seq kind [hash, range]) = .ok key.toValue := by
  rw [readKey_of_elements rfl, h]
  rfl

/-! ## Writes -/

/-- What a batch of writes comes to when its chunks are sent. -/
def writeOutcome (total : Nat) (unprocessed : List Value) : Outcome Unit :=
  if !unprocessed.isEmpty then .error (leftOver unprocessed total "write requests") else .ok ()

theorem batchWrite_of_requests {entries : Value} {requests : List Value}
    (hr : t.writeRequests entries = .ok requests) :
    t.batchWrite entries = andThen (t.sendWrites (chunks writeChunk requests)) fun unprocessed =>
      done (writeOutcome requests.length unprocessed) := by
  have hrest : ∀ unprocessed : List Value, done (writeOutcome requests.length unprocessed) =
      if !unprocessed.isEmpty then
        done (.error (leftOver unprocessed requests.length "write requests"))
      else done (.ok ()) := by
    intro unprocessed
    unfold writeOutcome
    split <;> rfl
  unfold batchWrite
  rw [hr]
  simp only [hrest]
  rfl

/-- A batch of writes that succeeds has sent all its requests. -/
theorem sent_batchWrite {entries : Value} {requests : List Value}
    (hr : t.writeRequests entries = .ok requests) {l : Link}
    (h : (t.batchWrite entries l).1 = .ok ()) :
    (t.batchWrite entries l).2.sent =
      l.sent ++ (chunks writeChunk requests).map t.writeCall := by
  rw [batchWrite_of_requests hr] at h ⊢
  obtain ⟨left, hleft, -⟩ := ok_of_andThen h
  rw [link_andThen _ fun _ => quiet_done _]
  rw [sendWrites_eq] at hleft ⊢
  obtain ⟨lefts, hlefts, -⟩ := map_eq_ok hleft
  exact sent_gather hlefts

/-- A batch that succeeds has sent the request of each of its entries. -/
theorem batchWrite_sent {entries : List Value} {kind : SeqKind} {entry request : Value}
    (hentry : t.writeRequest entry = .ok request) (hmem : entry ∈ entries) {l : Link}
    (h : (t.batchWrite (.seq kind entries) l).1 = .ok ()) :
    ∃ cs : List (List Value), (t.batchWrite (.seq kind entries) l).2.sent =
        l.sent ++ cs.map t.writeCall ∧ ∃ chunk ∈ cs, request ∈ chunk := by
  cases hr : t.writeRequests (.seq kind entries) with
  | error e =>
    unfold batchWrite at h
    rw [hr] at h
    cases h
  | ok requests =>
    have hall : entries.mapM t.writeRequest = .ok requests := hr
    exact ⟨_, sent_batchWrite hr h, exists_mem_chunks (mem_of_mapM hall hmem hentry)⟩

theorem batchWrite_chunk_sends (t : Table) (chunk : List Value) :
    Sends (t.gateway.batchWrite (.list chunk) []) (t.writeCall chunk) :=
  fun l => congrArg Prod.snd (t.batchWrite_chunk chunk l)

/-- A batch of one write sends its request. -/
theorem batchWrite_sends {entries request : Value} (hr : t.writeRequests entries = .ok [request]) :
    Sends (t.batchWrite entries) (t.writeCall [request]) := by
  have hone : chunks writeChunk [request] = [[request]] := by simp [chunks]
  rw [batchWrite_of_requests hr, hone, sendWrites_step]
  refine Sends.andThen ?_ fun left => quiet_done _
  refine (t.batchWrite_chunk_sends _).andThen fun reply => (quiet_done _).andThen fun _ => ?_
  exact Quiet.andThen (fun _ => rfl) fun _ => quiet_done _

/-! ## Reads -/

/-- The request of a chunk of keys. -/
def readCall (t : Table) (options : Params) (chunk : List Value) : Request :=
  ⟨.batchGetItem, [("RequestItems", .map [(.text t.name,
    .record (Entries.merge [("Keys", .list chunk)] options))])]⟩

/-- What a batch of reads comes to when its chunks are sent. -/
def readOutcome (t : Table) (total : Nat) (p : List Value × List Value) : Outcome Value :=
  if !p.2.isEmpty then .error (leftOver p.2 total "read keys") else Value.list <$> t.plainAll p.1

theorem batchRead_of_keys {entries : Value} {keys : List Value}
    (hk : t.readKeys entries = .ok keys) (projection : Value) :
    t.batchRead entries projection =
      andThen (t.sendReads (projectionParams projection) (chunks readChunk keys)) fun p =>
        done (t.readOutcome keys.length p) := by
  have hrest : ∀ p : List Value × List Value, done (t.readOutcome keys.length p) =
      if !p.2.isEmpty then done (.error (leftOver p.2 keys.length "read keys"))
      else andThen (done (t.plainAll p.1)) fun items => done (.ok (.list items)) := by
    intro p
    unfold readOutcome
    split
    · rfl
    · cases t.plainAll p.1 <;> rfl
  unfold batchRead
  rw [hk]
  simp only [hrest]
  rfl

theorem batchGet_sends (t : Table) (chunk : List Value) (options : Params) :
    Sends (t.gateway.batchGet (.list chunk) options) (t.readCall options chunk) :=
  t.gateway.sends_invoke _ _

/-- What a reply to a chunk of keys holds: items, and keys that are left over. -/
structure Got where
  items : List Value
  unprocessed : List Value
  deriving Inhabited

/-- What a reply to a chunk of keys holds, or what its failure is told as. -/
def gotBy (t : Table) (reply : Outcome Value) : Outcome Got :=
  match reply with
  | .error e => .error (e.interpreted Operation.batchGetItem.name t.name .null)
  | .ok reply => do
    let items ← Outcome.ofFault (← t.replyFor reply "Responses" (.list [])).elements
    return ⟨items, ← t.unprocessedKeys reply⟩

theorem batchGet_chunk (t : Table) (chunk : List Value) (options : Params) (l : Link) :
    t.gateway.batchGet (.list chunk) options l =
      (match l.next with
        | .ok reply => .ok reply
        | .error e => .error (e.interpreted Operation.batchGetItem.name t.name .null),
       l.after (t.readCall options chunk)) := by
  have hopen : t.gateway.batchGet (.list chunk) options l =
      t.gateway.invoke (t.readCall options chunk) .null l := rfl
  rw [hopen, Gateway.invoke, Link.send_eq]
  cases l.next <;> rfl

/-- What a chunk of keys holds is read off its reply before the other chunks go. -/
theorem sendReads_step (t : Table) (options : Params) (chunk : List Value)
    (rest : List (List Value)) :
    t.sendReads options (chunk :: rest) =
      andThen (t.gateway.batchGet (.list chunk) options) fun reply =>
        andThen (done (t.gotBy (.ok reply))) fun got =>
          andThen (t.sendReads options rest) fun p =>
            done (.ok (got.items ++ p.1, got.unprocessed ++ p.2)) := by
  have hopen : t.sendReads options (chunk :: rest) =
      andThen (t.gateway.batchGet (.list chunk) options) fun reply =>
        andThen (done (t.replyFor reply "Responses" (.list []))) fun responses =>
          andThen (done (Outcome.ofFault responses.elements)) fun items =>
            andThen (done (t.unprocessedKeys reply)) fun unprocessed =>
              andThen (t.sendReads options rest) fun p =>
                done (.ok (items ++ p.1, unprocessed ++ p.2)) := rfl
  rw [hopen]
  simp only [gotBy, andThen_done_bind]
  rfl

/-- Chunks of keys are sent up to the first whose call fails, and what is got is collected. -/
theorem sendReads_eq (t : Table) (options : Params) (cs : List (List Value)) (l : Link) :
    t.sendReads options cs l =
      ((fun gots : List Got => (gots.flatMap Got.items, gots.flatMap Got.unprocessed)) <$>
        (gather (t.readCall options) t.gotBy cs l).1,
      (gather (t.readCall options) t.gotBy cs l).2) := by
  induction cs generalizing l with
  | nil => rfl
  | cons chunk rest ih =>
    rw [sendReads_step, Exchange.andThen, batchGet_chunk, gather]
    cases l.next with
    | error e => rfl
    | ok reply =>
      dsimp only [Exchange.andThen, Exchange.done]
      cases t.gotBy (.ok reply) with
      | error e => rfl
      | ok got =>
        dsimp only
        rw [ih]
        cases (gather (t.readCall options) t.gotBy rest (l.after (t.readCall options chunk))).1 <;>
          rfl

/-- A batch of reads that succeeds has sent all its keys. -/
theorem sent_batchRead {entries projection : Value} {keys : List Value}
    (hk : t.readKeys entries = .ok keys) {l : Link} {v : Value}
    (h : (t.batchRead entries projection l).1 = .ok v) :
    (t.batchRead entries projection l).2.sent =
      l.sent ++ (chunks readChunk keys).map (t.readCall (projectionParams projection)) := by
  rw [batchRead_of_keys hk] at h ⊢
  obtain ⟨p, hp, -⟩ := ok_of_andThen h
  rw [link_andThen _ fun _ => quiet_done _]
  rw [sendReads_eq] at hp ⊢
  obtain ⟨gots, hgots, -⟩ := map_eq_ok hp
  exact sent_gather hgots

/-- A batch that succeeds has sent the key of each of its entries. -/
theorem batchRead_sent {entries : List Value} {kind : SeqKind} {entry wire : Value}
    (hentry : t.readKey entry = .ok wire) (hmem : entry ∈ entries) {projection : Value} {l : Link}
    {v : Value} (h : (t.batchRead (.seq kind entries) projection l).1 = .ok v) :
    ∃ cs : List (List Value), (t.batchRead (.seq kind entries) projection l).2.sent =
        l.sent ++ cs.map (t.readCall (projectionParams projection)) ∧
      ∃ chunk ∈ cs, wire ∈ chunk := by
  cases hk : t.readKeys (.seq kind entries) with
  | error e =>
    unfold batchRead at h
    rw [hk] at h
    cases h
  | ok keys =>
    have hall : entries.mapM t.readKey = .ok keys := hk
    exact ⟨_, sent_batchRead hk h, exists_mem_chunks (mem_of_mapM hall hmem hentry)⟩

/-- A batch of one read sends its key. -/
theorem batchRead_sends {entries projection wire : Value} (hk : t.readKeys entries = .ok [wire]) :
    Sends (t.batchRead entries projection) (t.readCall (projectionParams projection) [wire]) := by
  have hone : chunks readChunk [wire] = [[wire]] := by simp [chunks]
  rw [batchRead_of_keys hk, hone, sendReads_step]
  refine Sends.andThen ?_ fun p => quiet_done _
  refine (t.batchGet_sends _ _).andThen fun reply => (quiet_done _).andThen fun _ => ?_
  exact Quiet.andThen (fun _ => rfl) fun _ => quiet_done _

end Table

end ItemStore
