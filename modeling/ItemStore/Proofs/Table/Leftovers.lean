import ItemStore.Table.Batches
import Mathlib.Data.List.Forall2

/-
  What a batch of writes tells of the requests that the service leaves over. The chunks are sent
  one after the other, each takes one reply, and the first call that fails ends the batch
  (`gather`, and `sendWrites_eq`). So the outcome follows from the replies alone:
  the failure of the first call that fails, or else one failure with all that was left over, in
  the order of the chunks, or success if that is nothing (`batchWrite_eq`).

  A request that was left over is never lost in silence: the batch fails, and the request is among
  those that its failure tells as unprocessed unless a later call failed
  (`batchWrite_unprocessed`). If one did, its failure is all that the caller gets, and what was
  left over before is not in it (`not_batchWrite_unprocessed`).
-/

namespace ItemStore

namespace Link

/-- The reply to the next request. -/
def next (l : Link) : Outcome Value :=
  l.replies.head?.getD (.error l.silence)

/-- The connection after a request. -/
def after (r : Request) (l : Link) : Link :=
  { l with replies := l.replies.tail, sent := l.sent ++ [r] }

theorem send_eq (r : Request) (l : Link) : send r l = (l.next, l.after r) := by
  unfold send next after
  split
  · next h => rw [h]; rfl
  · next h => rw [h]; rfl

/-- The replies to the next requests. -/
def upcoming (l : Link) (n : Nat) : List (Outcome Value) :=
  (List.range n).map fun i => l.replies[i]?.getD (.error l.silence)

theorem upcoming_succ (l : Link) (r : Request) (n : Nat) :
    l.upcoming (n + 1) = l.next :: (l.after r).upcoming n := by
  unfold upcoming
  rw [List.range_succ_eq_map, List.map_cons, List.map_map, ← List.head?_eq_getElem?]
  refine congrArg _ (List.map_congr_left fun i _ => ?_)
  simp only [after, List.getElem?_tail]
  rfl

theorem upcoming_subset (l : Link) {m n : Nat} (h : m ≤ n) : l.upcoming m ⊆ l.upcoming n :=
  List.map_subset _ (List.range_subset.mpr h)

end Link

/-- The requests that a failure tells as left over. -/
def Failure.unprocessed : Failure → List Value
  | .retryable _ _ _ (some xs) => xs
  | _ => []

/-! ## Outcomes of a list -/

/-- If all outcomes of a list are taken, each is there. -/
theorem map_of_mapM {f : α → Outcome β} {xs : List α} {ys : List β} (h : xs.mapM f = .ok ys) :
    xs.map f = ys.map .ok := by
  induction xs generalizing ys with
  | nil =>
    cases h
    rfl
  | cons x xs ih =>
    rw [List.mapM_cons] at h
    rw [List.map_cons]
    cases hx : f x with
    | error e =>
      rw [hx] at h
      cases h
    | ok y =>
      cases hxs : xs.mapM f with
      | error e =>
        rw [hx, hxs] at h
        cases h
      | ok zs =>
        rw [hx, hxs] at h
        cases h
        rw [ih hxs, List.map_cons]

theorem length_of_mapM {f : α → Outcome β} {xs : List α} {ys : List β} (h : xs.mapM f = .ok ys) :
    ys.length = xs.length := by
  have hlength := congrArg List.length (map_of_mapM h)
  rw [List.length_map, List.length_map] at hlength
  exact hlength.symm

theorem exists_of_mapM {f : α → Outcome β} {xs : List α} {ys : List β} (h : xs.mapM f = .ok ys)
    {x : α} (hx : x ∈ xs) : ∃ y, f x = .ok y := by
  have hmem : f x ∈ xs.map f := List.mem_map_of_mem hx
  rw [map_of_mapM h] at hmem
  obtain ⟨y, -, hy⟩ := List.mem_map.mp hmem
  exact ⟨y, hy.symm⟩

/-- What holds of the outcome of each element holds of all, if all are taken. -/
theorem forall_of_mapM {f : α → Outcome β} {P : β → Prop} {xs : List α} {ys : List β}
    (h : xs.mapM f = .ok ys) (hf : ∀ x y, f x = .ok y → P y) : ∀ y ∈ ys, P y := by
  intro y hy
  have hmem : Except.ok y ∈ xs.map f := by
    rw [map_of_mapM h]
    exact List.mem_map_of_mem hy
  obtain ⟨x, -, hx⟩ := List.mem_map.mp hmem
  exact hf x y hx

theorem mapM_fmap (f : α → Outcome β) (g : β → γ) (xs : List α) :
    (xs.mapM fun x => g <$> f x) = List.map g <$> xs.mapM f := by
  induction xs with
  | nil => rfl
  | cons x xs ih =>
    rw [List.mapM_cons, List.mapM_cons, ih]
    cases f x with
    | error e => rfl
    | ok y => cases xs.mapM f <;> rfl

/-- The outcomes of a list are all taken, or one fails while all before it are taken. -/
theorem mapM_cases (f : α → Outcome β) (xs : List α) :
    (∃ ys, List.Forall₂ (fun x y => f x = .ok y) xs ys ∧ xs.mapM f = .ok ys) ∨
      ∃ before x after e, xs = before ++ x :: after ∧ (∀ y ∈ before, ∃ z, f y = .ok z) ∧
        f x = .error e ∧ xs.mapM f = .error e := by
  induction xs with
  | nil => exact .inl ⟨[], .nil, rfl⟩
  | cons x xs ih =>
    rw [List.mapM_cons]
    cases hx : f x with
    | error e => exact .inr ⟨[], x, xs, e, rfl, nofun, hx, rfl⟩
    | ok y =>
      rcases ih with ⟨ys, hys, hall⟩ | ⟨before, x', after, e, rfl, hbefore, hx', hall⟩
      · rw [hall]
        exact .inl ⟨y :: ys, .cons hx hys, rfl⟩
      · rw [hall]
        exact .inr ⟨x :: before, x', after, e, rfl, List.forall_mem_cons.mpr ⟨⟨y, hx⟩, hbefore⟩,
          hx', rfl⟩

/-- If not all outcomes of a list are taken, the failure is that of one. -/
theorem error_mem_of_mapM {f : α → Outcome β} {xs : List α} {e : Failure}
    (h : xs.mapM f = .error e) : .error e ∈ xs.map f := by
  rcases mapM_cases f xs with ⟨ys, -, hall⟩ | ⟨before, x, after, e', rfl, -, hx, hall⟩
  · rw [hall] at h
    cases h
  · rw [hall] at h
    cases h
    exact List.mem_map.mpr ⟨x, List.mem_append_right _ List.mem_cons_self, hx⟩

/-! ## Requests one after the other -/

namespace Exchange

theorem andThen_done_bind (x : Outcome α) (f : α → Outcome β) (g : β → Exchange γ) :
    andThen (done (x >>= f)) g = andThen (done x) fun a => andThen (done (f a)) g := by
  cases x <;> rfl

/-- Requests that are sent one after the other, with what is read off their replies. The first
reply that fails, or cannot be read, is the end. -/
def gather (call : α → Request) (read : Outcome Value → Outcome β) :
    List α → Link → Outcome (List β) × Link
  | [], l => (.ok [], l)
  | x :: xs, l =>
    match read l.next with
    | .error e => (.error e, l.after (call x))
    | .ok b =>
      let rest := gather call read xs (l.after (call x))
      ((b :: ·) <$> rest.1, rest.2)

variable (call : α → Request) (read : Outcome Value → Outcome β)

/-- What is gathered follows from the replies alone. -/
theorem gather_eq (xs : List α) (l : Link) :
    (gather call read xs l).1 = (l.upcoming xs.length).mapM read := by
  induction xs generalizing l with
  | nil => rfl
  | cons x xs ih =>
    rw [gather, List.length_cons, l.upcoming_succ (call x), List.mapM_cons, ← ih]
    cases read l.next with
    | error e => rfl
    | ok b =>
      dsimp only
      cases (gather call read xs (l.after (call x))).1 <;> rfl

/-- All requests are sent and all replies are read, or one reply fails and its request is the
last. -/
theorem gather_cases (xs : List α) (l : Link) :
    (∃ bs, (l.upcoming xs.length).map read = bs.map .ok ∧
      (gather call read xs l).1 = .ok bs ∧
      (gather call read xs l).2.sent = l.sent ++ xs.map call) ∨
    ∃ before x after, ∃ (bs : List β) (e : Failure), xs = before ++ x :: after ∧
      (l.upcoming (before.length + 1)).map read = bs.map .ok ++ [.error e] ∧
      (gather call read xs l).1 = .error e ∧
      (gather call read xs l).2.sent = l.sent ++ (before ++ [x]).map call := by
  induction xs generalizing l with
  | nil => exact .inl ⟨[], rfl, rfl, (List.append_nil _).symm⟩
  | cons x xs ih =>
    rw [gather]
    cases hread : read l.next with
    | error e =>
      refine .inr ⟨[], x, xs, [], e, rfl, ?_, rfl, rfl⟩
      rw [List.length_nil, l.upcoming_succ (call x), List.map_cons, hread]
      rfl
    | ok b =>
      have hsent : ∀ rs, (l.after (call x)).sent ++ rs = l.sent ++ call x :: rs := fun rs => by
        rw [Link.after, List.append_assoc, List.singleton_append]
      rcases ih (l.after (call x)) with ⟨bs, hreplies, hbs, hall⟩ |
        ⟨before, x', after, bs, e, rfl, hreplies, he, hall⟩
      · refine .inl ⟨b :: bs, ?_, ?_, hall.trans (hsent _)⟩
        · rw [List.length_cons, l.upcoming_succ (call x), List.map_cons, hread, hreplies]
          rfl
        · show (b :: ·) <$> (gather call read xs (l.after (call x))).1 = _
          rw [hbs]
          rfl
      · refine .inr ⟨x :: before, x', after, b :: bs, e, rfl, ?_, ?_, hall.trans (hsent _)⟩
        · rw [List.length_cons, l.upcoming_succ (call x), List.map_cons, hread, hreplies]
          rfl
        · show (b :: ·) <$> (gather call read _ (l.after (call x))).1 = _
          rw [he]
          rfl

end Exchange

open Exchange

namespace Table

/-- The requests that a reply to a chunk leaves over, or what its failure is told as. -/
def leftBy (t : Table) (reply : Outcome Value) : Outcome (List Value) :=
  match reply with
  | .error e => .error (e.interpreted Operation.batchWriteItem.name t.name .null)
  | .ok reply => do
    let unprocessed ← t.replyFor reply "UnprocessedItems" (.list [])
    Outcome.ofFault unprocessed.elements

/-- The request that sends a chunk. -/
def writeCall (t : Table) (chunk : List Value) : Request :=
  ⟨.batchWriteItem, [("RequestItems", .map [(.text t.name, .list chunk)])]⟩

theorem batchWrite_chunk (t : Table) (chunk : List Value) (l : Link) :
    t.gateway.batchWrite (.list chunk) [] l =
      (match l.next with
        | .ok reply => .ok reply
        | .error e => .error (e.interpreted Operation.batchWriteItem.name t.name .null),
       l.after (t.writeCall chunk)) := by
  have hopen : t.gateway.batchWrite (.list chunk) [] l =
      andThen (t.gateway.invoke (t.writeCall chunk) .null)
        (fun reply => andThen (done (.ok chunk.length))
          fun _ => done (.ok reply)) l := rfl
  rw [hopen, andThen, Gateway.invoke, Link.send_eq]
  cases l.next <;> rfl

/-- A chunk is sent, and what it leaves over is read off its reply before the other chunks go. -/
theorem sendWrites_step (t : Table) (chunk : List Value) (rest : List (List Value)) :
    t.sendWrites (chunk :: rest) =
      andThen (t.gateway.batchWrite (.list chunk) []) fun reply =>
        andThen (done (t.leftBy (.ok reply))) fun xs =>
          andThen (t.sendWrites rest) fun ys => done (.ok (xs ++ ys)) := by
  have hopen : t.sendWrites (chunk :: rest) =
      andThen (t.gateway.batchWrite (.list chunk) []) fun reply =>
        andThen (done (t.replyFor reply "UnprocessedItems" (.list []))) fun unprocessed =>
          andThen (done (Outcome.ofFault unprocessed.elements)) fun xs =>
            andThen (t.sendWrites rest) fun ys => done (.ok (xs ++ ys)) := rfl
  rw [hopen]
  simp only [leftBy, andThen_done_bind]

/-- Chunks are sent up to the first whose call fails, and what they leave over is collected. -/
theorem sendWrites_eq (t : Table) (cs : List (List Value)) (l : Link) :
    t.sendWrites cs l = (List.flatten <$> (gather t.writeCall t.leftBy cs l).1,
      (gather t.writeCall t.leftBy cs l).2) := by
  induction cs generalizing l with
  | nil => rfl
  | cons chunk rest ih =>
    rw [sendWrites_step, andThen, batchWrite_chunk, gather]
    cases l.next with
    | error e => rfl
    | ok reply =>
      dsimp only [andThen, done]
      cases t.leftBy (.ok reply) with
      | error e => rfl
      | ok xs =>
        dsimp only
        rw [ih]
        cases (gather t.writeCall t.leftBy rest (l.after (t.writeCall chunk))).1 <;> rfl

/-- What a batch of writes comes to, from the replies to its chunks: the first failure, or else
that nothing or what was left over. -/
theorem batchWrite_eq {t : Table} {entries : Value} {requests : List Value}
    (hr : t.writeRequests entries = .ok requests) (l : Link) :
    (t.batchWrite entries l).1 =
      match (l.upcoming (chunks writeChunk requests).length).mapM t.leftBy with
      | .error e => .error e
      | .ok left =>
        if left.flatten.isEmpty then .ok ()
        else .error (leftOver left.flatten requests.length "write requests") := by
  have hopen : t.batchWrite entries l =
      andThen (done (t.writeRequests entries))
        (fun requests => andThen (t.sendWrites (chunks writeChunk requests))
          fun unprocessed =>
            if !unprocessed.isEmpty then
              done (.error (leftOver unprocessed requests.length "write requests"))
            else done (.ok ())) l := rfl
  rw [hopen, hr]
  dsimp only [andThen, done]
  rw [sendWrites_eq, gather_eq]
  cases (l.upcoming (chunks writeChunk requests).length).mapM t.leftBy with
  | error e => rfl
  | ok left =>
    dsimp only [Functor.map, Except.map]
    cases left.flatten.isEmpty <;> rfl

/-- Wherever a request is left over, a batch of writes fails: either as a later call failed, or
with the request among those that were not processed. -/
theorem batchWrite_unprocessed {t : Table} {entries : Value} {requests : List Value}
    (hr : t.writeRequests entries = .ok requests) {l : Link} {before : List (List Value)}
    {later : List (Outcome (List Value))}
    (hcalls : (l.upcoming (chunks writeChunk requests).length).map t.leftBy =
      before.map .ok ++ later)
    {xs : List Value} (hxs : xs ∈ before) {x : Value} (hx : x ∈ xs) :
    ∃ failure, (t.batchWrite entries l).1 = .error failure ∧
      (.error failure ∈ later ∨ x ∈ failure.unprocessed) := by
  rw [batchWrite_eq hr]
  cases hleft : (l.upcoming (chunks writeChunk requests).length).mapM t.leftBy with
  | error e =>
    have hmem := error_mem_of_mapM hleft
    rw [hcalls, List.mem_append, List.mem_map] at hmem
    exact ⟨e, rfl, .inl (hmem.resolve_left fun ⟨_, _, he⟩ => by cases he)⟩
  | ok left =>
    rw [map_of_mapM hleft] at hcalls
    have hmem : Except.ok xs ∈ left.map (Except.ok (ε := Failure)) := by
      rw [hcalls]
      exact List.mem_append_left _ (List.mem_map_of_mem hxs)
    obtain ⟨ys, hys, he⟩ := List.mem_map.mp hmem
    cases he
    have hflat : x ∈ left.flatten := List.mem_flatten_of_mem hys hx
    dsimp only
    rw [if_neg (by rw [List.isEmpty_iff]; exact List.ne_nil_of_mem hflat)]
    exact ⟨_, rfl, .inr hflat⟩

/-! ## One delete more than a chunk takes -/

def eventsTable : Table :=
  { gateway := ⟨default, "events"⟩, schema := { hashKey := some "id", hashType := some .text } }

def deletes : Value :=
  .list (List.replicate 26 (.seq .tuple [.text "k", .null, .null]))

def deleteRequest : Value :=
  .record [("DeleteRequest", .record [("Key", .record [("id", .record [("S", .text "k")])])])]

theorem writeRequests_deletes :
    eventsTable.writeRequests deletes = .ok (List.replicate 26 deleteRequest) := rfl

theorem length_chunks_deletes :
    (chunks writeChunk (List.replicate 26 deleteRequest)).length = 2 := by
  simp [chunks, writeChunk]

/-- A reply that leaves one request over. -/
def leavingReply : Value :=
  .record [("UnprocessedItems", .record [("events", .list [deleteRequest])])]

/-- The second reply leaves nothing over. -/
theorem batchWrite_unprocessed_deletes :
    ∃ failure, (eventsTable.batchWrite deletes
        { replies := [.ok leavingReply, .ok (.map [])] }).1 = .error failure ∧
      deleteRequest ∈ failure.unprocessed := by
  have hcalls : (Link.upcoming { replies := [.ok leavingReply, .ok (.map [])] }
      (chunks writeChunk (List.replicate 26 deleteRequest)).length).map eventsTable.leftBy =
        [[deleteRequest]].map .ok ++ [.ok []] := by
    rw [length_chunks_deletes]
    rfl
  obtain ⟨failure, hfailure, hlater | hmem⟩ :=
    batchWrite_unprocessed writeRequests_deletes hcalls List.mem_cons_self List.mem_cons_self
  · cases List.mem_singleton.mp hlater
  · exact ⟨failure, hfailure, hmem⟩

/-- A call that times out after one that left a request over: the request is not told. -/
theorem not_batchWrite_unprocessed :
    eventsTable.leftBy (.ok leavingReply) = .ok [deleteRequest] ∧
      ∃ failure, (eventsTable.batchWrite deletes
          { replies := [.ok leavingReply, .error (.incident ⟨"TimeoutError", "", false⟩)] }).1 =
            .error failure ∧
        deleteRequest ∉ failure.unprocessed := by
  refine ⟨rfl, .incident ⟨"TimeoutError", "", false⟩, ?_, List.not_mem_nil⟩
  rw [batchWrite_eq writeRequests_deletes, length_chunks_deletes]
  rfl

end Table

end ItemStore
