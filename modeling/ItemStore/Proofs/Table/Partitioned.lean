import ItemStore.Proofs.Table.Missing

/-
  How batches are cut up. A batch takes all its entries before it sends anything, and the first one
  that is refused is the failure of the batch. Otherwise what the entries ask for is sent in
  consecutive chunks (`Partitions`), each by one request, in order. If all calls return, the outcome
  is made of what their replies hold, also in order. If a call fails, it is the last
  (`Gathers`, from `gather_cases`).

  Writes and reads differ in what an entry asks for, in the size of a chunk, and in what is made of
  the replies (`batchWrite_partitioned`, `batchRead_partitioned`). Not every chunk is sent whatever
  is replied: those behind a call that fails are not (`not_batchWrite_partitioned`). Nor is every
  key that is refused refused by a rule of the library (`not_batchRead_partitioned`).
-/

namespace ItemStore

open Exchange

/-! ## Chunks -/

/-- Consecutive chunks of a list: none is empty, so that the empty list has none, and all but the
last are full. -/
structure Partitions (size : Nat) (xs : List α) (cs : List (List α)) : Prop where
  flatten_eq : cs.flatten = xs
  bounds : ∀ c ∈ cs, 1 ≤ c.length ∧ c.length ≤ size
  full : ∀ c ∈ cs.dropLast, c.length = size

namespace Table

theorem length_le_of_mem_chunks {size : Nat} (hsize : 0 < size) (xs : List α) :
    ∀ c ∈ chunks size xs, 1 ≤ c.length ∧ c.length ≤ size := by
  fun_induction chunks size xs with
  | case1 => exact List.forall_mem_nil _
  | case2 x rest ih =>
    refine List.forall_mem_cons.mpr ⟨?_, ih⟩
    rw [List.length_cons, List.length_take]
    omega

/-- There are chunks behind a chunk only if it is full. -/
theorem length_of_mem_dropLast_chunks {size : Nat} (hsize : 0 < size) (xs : List α) :
    ∀ c ∈ (chunks size xs).dropLast, c.length = size := by
  fun_induction chunks size xs with
  | case1 => exact List.forall_mem_nil _
  | case2 x rest ih =>
    by_cases hrest : rest.length ≤ size - 1
    · rw [List.drop_eq_nil_of_le hrest, chunks]
      exact List.forall_mem_nil _
    · have hne : chunks size (rest.drop (size - 1)) ≠ [] := by
        intro hnil
        have hflat := flatten_chunks size (rest.drop (size - 1))
        rw [hnil] at hflat
        have hlength := congrArg List.length hflat
        rw [List.length_drop, List.flatten_nil, List.length_nil] at hlength
        omega
      rw [List.dropLast_cons_of_ne_nil hne]
      refine List.forall_mem_cons.mpr ⟨?_, ih⟩
      rw [List.length_cons, List.length_take]
      omega

theorem partitions_chunks {size : Nat} (hsize : 0 < size) (xs : List α) :
    Partitions size xs (chunks size xs) :=
  ⟨flatten_chunks size xs, length_le_of_mem_chunks hsize xs,
    length_of_mem_dropLast_chunks hsize xs⟩

/-- A first chunk that is full, or has nothing behind it, is cut off first. -/
theorem chunks_append {size : Nat} {c rest : List α} (hpos : 1 ≤ c.length)
    (hle : c.length ≤ size) (hfull : rest ≠ [] → c.length = size) :
    chunks size (c ++ rest) = c :: chunks size rest := by
  obtain ⟨x, c, rfl⟩ := List.exists_cons_of_length_pos hpos
  rw [List.length_cons] at hle hfull
  rw [List.cons_append, chunks]
  by_cases hrest : rest = []
  · subst hrest
    rw [List.append_nil, List.take_of_length_le (by omega), List.drop_eq_nil_of_le (by omega)]
  · have hlength : size - 1 = c.length := by
      have := hfull hrest
      omega
    rw [hlength, List.take_left, List.drop_left]

end Table

/-- A list is cut up in one way only. -/
theorem Partitions.eq_chunks {size : Nat} {xs : List α} {cs : List (List α)}
    (h : Partitions size xs cs) : cs = Table.chunks size xs := by
  obtain ⟨rfl, hbounds, hfull⟩ := h
  induction cs with
  | nil => rw [List.flatten_nil, Table.chunks]
  | cons c cs ih =>
    obtain ⟨hc, hcs⟩ := List.forall_mem_cons.mp hbounds
    have hfull' : cs.flatten ≠ [] → c.length = size := by
      intro hne
      have hcs : cs ≠ [] := by
        rintro rfl
        exact hne rfl
      rw [List.dropLast_cons_of_ne_nil hcs] at hfull
      exact hfull c List.mem_cons_self
    rw [List.flatten_cons, Table.chunks_append hc.1 hc.2 hfull', ← ih hcs fun d hd => ?_]
    refine hfull d ?_
    rw [List.dropLast_cons_of_ne_nil (List.ne_nil_of_mem (List.dropLast_subset _ hd))]
    exact List.mem_cons_of_mem _ hd

/-! ## Calls -/

/-- What comes of requests that are sent one after the other over a connection: the outcome, and
the requests that were sent. -/
inductive Gathers (call : α → Request) (read : Outcome Value → Outcome β)
    (finish : List β → Outcome γ) (xs : List α) (l : Link) : Outcome γ → List Request → Prop
  /-- All calls return, and their replies can be read. -/
  | all {bs : List β} (replies : (l.upcoming xs.length).map read = bs.map .ok) :
      Gathers call read finish xs l (finish bs) (xs.map call)
  /-- One call fails, or its reply cannot be read, and its request is the last. -/
  | failed {before after : List α} {x : α} {bs : List β} {e : Failure}
      (cut : xs = before ++ x :: after)
      (replies : (l.upcoming (before.length + 1)).map read = bs.map .ok ++ [.error e]) :
      Gathers call read finish xs l (.error e) ((before ++ [x]).map call)

/-- An exchange that gathers and then finishes. -/
theorem gathers_of_eq {call : α → Request} {read : Outcome Value → Outcome β}
    {finish : List β → Outcome γ} {xs : List α} {x : Exchange γ} {l : Link}
    (h : x l = ((gather call read xs l).1 >>= finish, (gather call read xs l).2)) :
    ∃ rs, (x l).2.sent = l.sent ++ rs ∧ Gathers call read finish xs l (x l).1 rs := by
  rw [h]
  dsimp only
  rcases gather_cases call read xs l with ⟨bs, hreplies, hbs, hsent⟩ |
    ⟨before, y, after, bs, e, hcut, hreplies, he, hsent⟩
  · rw [hbs]
    exact ⟨_, hsent, .all hreplies⟩
  · rw [he]
    exact ⟨_, hsent, .failed hcut hreplies⟩

/-- If all replies can be read, all requests are sent. -/
theorem Gathers.of_replies {call : α → Request} {read : Outcome Value → Outcome β}
    {finish : List β → Outcome γ} {xs : List α} {l : Link} {outcome : Outcome γ}
    {rs : List Request} (h : Gathers call read finish xs l outcome rs) {bs : List β}
    (hreplies : (l.upcoming xs.length).map read = bs.map .ok) :
    outcome = finish bs ∧ rs = xs.map call := by
  cases h with
  | @all bs' replies =>
    have heq : bs' = bs := List.map_injective_iff.mpr (fun _ _ => Except.ok.inj)
      (replies.symm.trans hreplies)
    exact ⟨congrArg finish heq, rfl⟩
  | @failed before after x bs' e cut replies =>
    -- the reply that fails is among those that all can be read
    have hmem : .error e ∈ (l.upcoming (before.length + 1)).map read := by
      rw [replies]
      exact List.mem_append_right _ List.mem_cons_self
    have hle : before.length + 1 ≤ xs.length := by
      rw [cut, List.length_append, List.length_cons]
      omega
    have hmem' : .error e ∈ (l.upcoming xs.length).map read :=
      List.map_subset read (l.upcoming_subset hle) hmem
    rw [hreplies] at hmem'
    obtain ⟨b, -, hb⟩ := List.mem_map.mp hmem'
    cases hb

/-- A choice by what is left over, told by what it consists of. -/
theorem ite_not_isEmpty {xs : List α} {P : Prop} [Decidable P] (h : xs = [] ↔ P) (a b : β) :
    (if !xs.isEmpty then a else b) = if P then b else a := by
  rw [← List.isEmpty_iff] at h
  by_cases hp : P
  · rw [if_pos hp, h.mpr hp]
    rfl
  · rw [if_neg hp, Bool.eq_false_iff.mpr (mt h.mp hp)]
    rfl

/-! ## Entries of writes -/

/-- Equal elements have equal ones that they are related to. -/
theorem eq_replicate_of_forall₂ {R : α → β → Prop} (hr : Relator.RightUnique R) {a : α} {b : β}
    (hab : R a b) {n : Nat} {ys : List β} (h : List.Forall₂ R (List.replicate n a) ys) :
    ys = List.replicate n b := by
  refine List.right_unique_forall₂' hr h (List.forall₂_iff_get.mpr ⟨?_, fun i _ _ => ?_⟩)
  · rw [List.length_replicate, List.length_replicate]
  · simpa using hab

/-- An entry of a batch of writes. -/
structure WriteEntry where
  hash : Value
  range : Value
  value : Value

namespace WriteEntry

def toValue (w : WriteEntry) : Value :=
  .seq .tuple [w.hash, w.range, w.value]

end WriteEntry

namespace Table

variable {t : Table} {w : WriteEntry} {write : Value} {e : Failure}

/-- What an entry asks for: a delete of its key if its value is null, or a put of the attributes of
its map, which those of the key are merged into. -/
inductive Asks (t : Table) : WriteEntry → Value → Prop
  | delete {hash range : Value} {key : Item} (key_eq : t.requireKey hash range = .ok key) :
      Asks t ⟨hash, range, .null⟩ (removal key)
  | put {hash range : Value} {es : List (Value × Value)} {attributes key : Item}
      (key_eq : t.requireKey hash range = .ok key)
      (attributes_eq : Value.toItem (.map es) = .ok attributes) :
      Asks t ⟨hash, range, .map es⟩ (putRequest (Entries.merge attributes key))

/-- Why an entry is refused: its key is, or its value is neither null nor a map, or has an integer
with too many digits to be written. -/
inductive Refuses (t : Table) : WriteEntry → Failure → Prop
  | key {w : WriteEntry} {e : Failure} (key_eq : t.requireKey w.hash w.range = .error e) :
      Refuses t w e
  | value {w : WriteEntry} {key : Item} (key_eq : t.requireKey w.hash w.range = .ok key)
      (ne_null : w.value ≠ .null) (ne_map : ∀ es, w.value ≠ .map es) :
      Refuses t w (.fault .noOperation)
  | digits {w : WriteEntry} {key : Item} (key_eq : t.requireKey w.hash w.range = .ok key)
      {es : List (Value × Value)} (value_eq : w.value = .map es)
      (unwritable : w.value.isWritable = false) : Refuses t w (.fault .badValue)

/-- An entry asks for a request or is refused. -/
theorem writeRequest_toValue (t : Table) (w : WriteEntry) :
    (∃ write, t.Asks w write ∧ t.writeRequest w.toValue = .ok write) ∨
      ∃ e, t.Refuses w e ∧ t.writeRequest w.toValue = .error e := by
  obtain ⟨hash, range, value⟩ := w
  cases hkey : t.requireKey hash range with
  | error e =>
    refine .inr ⟨e, .key hkey, ?_⟩
    by_cases hnull : value = .null
    · subst hnull
      rw [writeRequest_null rfl, hkey]
      rfl
    · rw [writeRequest_of_ne_null rfl hnull, keyedItem_of_error hkey]
      rfl
  | ok key =>
    have hput : value ≠ .null → t.writeRequest (.seq .tuple [hash, range, value]) =
        putRequest <$> (Outcome.ofFault value.toItem >>= fun attributes =>
          .ok (Entries.merge attributes key)) := by
      intro hnull
      rw [writeRequest_of_ne_null rfl hnull]
      unfold keyedItem
      rw [hkey]
      rfl
    cases value with
    | null =>
      refine .inl ⟨_, .delete hkey, ?_⟩
      exact (writeRequest_null rfl).trans (by rw [hkey]; rfl)
    | map es =>
      rw [Value.toItem_map] at hput
      cases hw : (Value.map es).isWritable with
      | true =>
        rw [hw] at hput
        refine .inl ⟨_, .put hkey ?_, hput nofun⟩
        rw [Value.toItem_map, hw]
        rfl
      | false =>
        rw [hw] at hput
        exact .inr ⟨_, .digits hkey rfl hw, hput nofun⟩
    | _ => exact .inr ⟨_, .value hkey nofun nofun, hput nofun⟩

theorem asks_of_writeRequest (h : t.writeRequest w.toValue = .ok write) : t.Asks w write := by
  rcases t.writeRequest_toValue w with ⟨write', hasks, hok⟩ | ⟨e, -, he⟩
  · rw [h] at hok
    cases hok
    exact hasks
  · rw [h] at he
    cases he

theorem refuses_of_writeRequest (h : t.writeRequest w.toValue = .error e) : t.Refuses w e := by
  rcases t.writeRequest_toValue w with ⟨write, -, hok⟩ | ⟨e', hrefuses, he⟩
  · rw [h] at hok
    cases hok
  · rw [h] at he
    cases he
    exact hrefuses

/-- No entry that asks for a request is refused. -/
theorem Asks.not_refuses (h : t.Asks w write) : ¬t.Refuses w e := by
  intro hrefuses
  cases hrefuses with
  | key key_eq =>
    cases h with
    | delete key_eq' => cases key_eq.symm.trans key_eq'
    | put key_eq' => cases key_eq.symm.trans key_eq'
  | value _ ne_null ne_map =>
    cases h with
    | delete => exact ne_null rfl
    | put => exact ne_map _ rfl
  | digits _ value_eq unwritable =>
    cases h with
    | delete => cases value_eq
    | put _ attributes_eq =>
      rw [Value.toItem_map] at attributes_eq
      dsimp only at unwritable
      rw [unwritable] at attributes_eq
      cases attributes_eq

/-- An entry asks for one request only. -/
theorem asks_rightUnique (t : Table) : Relator.RightUnique t.Asks := by
  intro w write write' h h'
  cases h with
  | delete key_eq =>
    cases h' with
    | delete key_eq' => rw [Except.ok.inj (key_eq.symm.trans key_eq')]
  | put key_eq attributes_eq =>
    cases h' with
    | put key_eq' attributes_eq' =>
      rw [Except.ok.inj (key_eq.symm.trans key_eq'),
        Except.ok.inj (attributes_eq.symm.trans attributes_eq')]

/-! ## Writes -/

/-- A list of entries, as a batch of writes is given it. -/
def writeEntries (ws : List WriteEntry) : Value :=
  .list (ws.map WriteEntry.toValue)

theorem writeRequests_writeEntries (t : Table) (ws : List WriteEntry) :
    t.writeRequests (writeEntries ws) = ws.mapM fun w => t.writeRequest w.toValue :=
  List.mapM_map ..

/-- What a batch of writes comes to if all its replies are read: it fails if one of them leaves
requests over, with those of all of them. -/
def allWritten (total : Nat) (lefts : List (List Value)) : Outcome Unit :=
  if ∀ left ∈ lefts, left = [] then .ok ()
  else .error (leftOver lefts.flatten total "write requests")

theorem writeOutcome_flatten (total : Nat) (lefts : List (List Value)) :
    writeOutcome total lefts.flatten = allWritten total lefts :=
  ite_not_isEmpty List.flatten_eq_nil_iff _ _

/-- A batch of writes, for any entries and any replies. If some entries are refused, the first of
them is the failure, and nothing is sent. Otherwise the requests of all entries are sent in
consecutive chunks, up to the first whose call fails; if none does, the outcome is that of
`allWritten`. -/
theorem batchWrite_partitioned (t : Table) (ws : List WriteEntry) :
    ((∃ w ∈ ws, ∃ e, t.Refuses w e) →
      ∃ before w after e, ws = before ++ w :: after ∧ (∀ x ∈ before, ∀ e', ¬t.Refuses x e') ∧
        t.Refuses w e ∧ t.batchWrite (writeEntries ws) = done (.error e)) ∧
    ((∀ w ∈ ws, ∀ e, ¬t.Refuses w e) →
      ∃ requests cs, List.Forall₂ t.Asks ws requests ∧ Partitions writeChunk requests cs ∧
        ∀ l, ∃ rs, (t.batchWrite (writeEntries ws) l).2.sent = l.sent ++ rs ∧
          Gathers t.writeCall t.leftBy (allWritten requests.length) cs l
            (t.batchWrite (writeEntries ws) l).1 rs) := by
  rcases mapM_cases (fun w : WriteEntry => t.writeRequest w.toValue) ws with
    ⟨requests, hrequests, hall⟩ | ⟨before, w, after, e, rfl, hbefore, hw, hall⟩
  · have hasks : List.Forall₂ t.Asks ws requests := hrequests.imp fun _ _ => asks_of_writeRequest
    have hcall := batchWrite_of_requests ((t.writeRequests_writeEntries ws).trans hall)
    refine ⟨fun ⟨w, hw, e, hrefuses⟩ => ?_, fun _ => ?_⟩
    · obtain ⟨write, hwrite⟩ := exists_of_mapM hall hw
      exact absurd hrefuses (asks_of_writeRequest hwrite).not_refuses
    · refine ⟨requests, chunks writeChunk requests, hasks, partitions_chunks (by decide) _,
        fun l => gathers_of_eq ?_⟩
      rw [hcall, andThen, sendWrites_eq]
      cases (gather t.writeCall t.leftBy (chunks writeChunk requests) l).1 with
      | error e => rfl
      | ok lefts =>
        show (writeOutcome _ _, _) = _
        rw [writeOutcome_flatten]
        rfl
  · refine ⟨fun _ => ⟨before, w, after, e, rfl, fun x hx e' => ?_, refuses_of_writeRequest hw,
      batchWrite_of_error ((t.writeRequests_writeEntries _).trans hall)⟩, fun hnone => ?_⟩
    · obtain ⟨write, hwrite⟩ := hbefore x hx
      exact (asks_of_writeRequest hwrite).not_refuses
    · exact absurd (refuses_of_writeRequest hw)
        (hnone w (List.mem_append_right _ List.mem_cons_self) e)

/-- One delete more than a chunk takes. -/
def deleteEntries : List WriteEntry :=
  List.replicate 26 ⟨.text "k", .null, .null⟩

theorem asks_delete : eventsTable.Asks ⟨.text "k", .null, .null⟩ deleteRequest := by
  have hkey : eventsTable.requireKey (.text "k") .null = .ok [("id", .s "k")] := rfl
  exact .delete hkey

theorem not_refuses_deleteEntries : ∀ w ∈ deleteEntries, ∀ e, ¬eventsTable.Refuses w e := by
  intro w hw e
  rw [List.eq_of_mem_replicate hw]
  exact asks_delete.not_refuses

theorem chunks_deletes : chunks writeChunk (List.replicate 26 deleteRequest) =
    [List.replicate 25 deleteRequest, [deleteRequest]] := by
  have hflat : [List.replicate 25 deleteRequest, [deleteRequest]].flatten =
      List.replicate 26 deleteRequest := rfl
  refine (Partitions.eq_chunks ⟨hflat, ?_, ?_⟩).symm <;> decide

/-- What the deletes ask for is cut up into a full chunk and one delete. -/
theorem chunks_of_deleteEntries {requests : List Value} {cs : List (List Value)}
    (hasks : List.Forall₂ eventsTable.Asks deleteEntries requests)
    (hcs : Partitions writeChunk requests cs) :
    requests.length = 26 ∧ cs = [List.replicate 25 deleteRequest, [deleteRequest]] := by
  obtain rfl := eq_replicate_of_forall₂ eventsTable.asks_rightUnique asks_delete hasks
  exact ⟨rfl, hcs.eq_chunks.trans chunks_deletes⟩

/-- Two chunks, the second of one delete, and a reply to the first that leaves a delete over. -/
theorem batchWrite_partitioned_deletes :
    let l : Link := { replies := [.ok leavingReply, .ok (.map [])] }
    (eventsTable.batchWrite (writeEntries deleteEntries) l).2.sent =
        [eventsTable.writeCall (List.replicate 25 deleteRequest),
          eventsTable.writeCall [deleteRequest]] ∧
      (eventsTable.batchWrite (writeEntries deleteEntries) l).1 =
        .error (leftOver [deleteRequest] 26 "write requests") := by
  intro l
  obtain ⟨requests, cs, hasks, hcs, hrun⟩ :=
    (batchWrite_partitioned eventsTable deleteEntries).2 not_refuses_deleteEntries
  obtain ⟨hlength, rfl⟩ := chunks_of_deleteEntries hasks hcs
  obtain ⟨rs, hsent, hgathers⟩ := hrun l
  have hreplies : (l.upcoming 2).map eventsTable.leftBy = [[deleteRequest], []].map .ok := rfl
  obtain ⟨houtcome, hrs⟩ := hgathers.of_replies hreplies
  rw [hlength] at houtcome
  exact ⟨hsent.trans hrs, houtcome⟩

/-- The first of two calls is throttled: the second chunk is not sent. -/
theorem not_batchWrite_partitioned :
    let throttled : ServiceError :=
      { operation := "BatchWriteItem", code := some (.text "ThrottlingException")
        message := some (.text "slow down") }
    (∀ w ∈ deleteEntries, ∀ e, ¬eventsTable.Refuses w e) ∧
      ¬∃ requests cs, List.Forall₂ eventsTable.Asks deleteEntries requests ∧
        Partitions writeChunk requests cs ∧
        (eventsTable.batchWrite (writeEntries deleteEntries)
          { replies := [.error (.service throttled)] }).2.sent = cs.map eventsTable.writeCall := by
  intro throttled
  refine ⟨not_refuses_deleteEntries, ?_⟩
  rintro ⟨requests, cs, hasks, hcs, hsent⟩
  obtain ⟨-, rfl⟩ := chunks_of_deleteEntries hasks hcs
  have hdeletes : eventsTable.writeRequests (writeEntries deleteEntries) =
      .ok (List.replicate 26 deleteRequest) := rfl
  rw [batchWrite_of_requests hdeletes, link_andThen _ fun _ => quiet_done _,
    chunks_deletes, sendWrites_eq] at hsent
  cases congrArg List.length hsent

/-! ## Keys of reads -/

/-- Why a key is refused: the schema is not resolved, the range value is missing, or the type of an
attribute does not take its value, which makes no bytes or has no text. -/
inductive RefusesKey (t : Table) (hash range : Value) : Failure → Prop
  | notResolved (hash?_eq : t.schema.hash? = none) : RefusesKey t hash range t.notResolved
  | rangeMissing {name : String} (named?_eq : Schema.named? t.schema.rangeKey = some name)
      (null : range = .null) : RefusesKey t hash range (t.rangeMissing name)
  | hash {name : String} {type : KeyType} {f : Fault}
      (hash?_eq : t.schema.hash? = some (name, type)) (refuses : type.Refuses hash f) :
      RefusesKey t hash range (.fault f)
  | range {name : String} {type : KeyType} {f : Fault}
      (range?_eq : t.schema.range? = some (name, type)) (refuses : type.Refuses range f) :
      RefusesKey t hash range (.fault f)

theorem refusesKey_of_requireKey {hash range : Value} (h : t.requireKey hash range = .error e) :
    t.RefusesKey hash range e := by
  unfold requireKey at h
  cases hkey : t.schema.key hash range with
  | error e' =>
    rw [hkey] at h
    cases h
    obtain ⟨_, _, f, rfl, ⟨hhash, hf⟩ | ⟨hrange, hf⟩⟩ := Schema.key_error_cases hkey
    · exact .hash hhash hf
    · exact .range hrange hf
  | ok key =>
    rw [hkey] at h
    change (if key.isEmpty then _ else _) = _ at h
    split at h
    · next hempty =>
      cases h
      rw [Schema.isEmpty_of_key hkey, Bool.not_eq_true', Schema.isReady] at hempty
      exact .notResolved (Option.not_isSome_iff_eq_none.mp (Bool.eq_false_iff.mp hempty))
    · split at h
      · next name hname =>
        cases h
        exact .rangeMissing hname rfl
      · cases h

/-! ## Reads -/

/-- A list of keys, as a batch of reads is given it. -/
def readEntries (ks : List (Value × Value)) : Value :=
  .list (ks.map fun k => .seq .tuple [k.1, k.2])

theorem readKeys_readEntries (t : Table) (ks : List (Value × Value)) :
    t.readKeys (readEntries ks) = ks.mapM fun k => Item.toValue <$> t.requireKey k.1 k.2 := by
  have hopen : t.readKeys (readEntries ks) =
      (ks.map fun k => Value.seq .tuple [k.1, k.2]).mapM t.readKey := rfl
  rw [hopen, List.mapM_map]
  exact congrArg (ks.mapM ·) (funext fun k => readKey_of_elements rfl)

/-- What a batch of reads comes to if all its replies are read: it fails if one of them leaves keys
over, with those of all of them, and else gives the items of all of them as plain maps. -/
def allRead (t : Table) (total : Nat) (gots : List Got) : Outcome Value :=
  if ∀ got ∈ gots, got.unprocessed = [] then Value.list <$> t.plainAll (gots.flatMap Got.items)
  else .error (leftOver (gots.flatMap Got.unprocessed) total "read keys")

theorem readOutcome_flatMap (t : Table) (total : Nat) (gots : List Got) :
    t.readOutcome total (gots.flatMap Got.items, gots.flatMap Got.unprocessed) =
      t.allRead total gots :=
  ite_not_isEmpty List.flatMap_eq_nil_iff _ _

/-- The request of a chunk of keys: the keys under the table's name, and the projection beside them
if one is given. -/
def projectedCall (t : Table) (projection : Value) (chunk : List Value) : Request :=
  ⟨.batchGetItem, [("RequestItems", .map [(.text t.name, .map
    ((.text "Keys", .list chunk) ::
      if projection.isTruthy then [(.text "ProjectionExpression", projection)] else []))])]⟩

theorem readCall_projectionParams (t : Table) (projection : Value) :
    t.readCall (projectionParams projection) = t.projectedCall projection := by
  funext chunk
  rw [projectionParams, projectedCall]
  split <;> rfl

/-- A batch of reads, for any keys, projection and replies. If some keys are refused, the first of
them is the failure, and nothing is sent. Otherwise all keys are sent in consecutive chunks, each
with the projection, up to the first whose call fails; if none does, the outcome is that of
`allRead`. -/
theorem batchRead_partitioned (t : Table) (ks : List (Value × Value)) (projection : Value) :
    ((∃ k ∈ ks, ∃ e, t.requireKey k.1 k.2 = .error e) →
      ∃ before k after e, ks = before ++ k :: after ∧
        (∀ x ∈ before, ∃ key, t.requireKey x.1 x.2 = .ok key) ∧
        t.requireKey k.1 k.2 = .error e ∧ t.RefusesKey k.1 k.2 e ∧
        t.batchRead (readEntries ks) projection = done (.error e)) ∧
    ((∀ k ∈ ks, ∃ key, t.requireKey k.1 k.2 = .ok key) →
      ∃ keys cs, List.Forall₂ (fun k key => t.requireKey k.1 k.2 = .ok key) ks keys ∧
        Partitions readChunk (keys.map Item.toValue) cs ∧
        ∀ l, ∃ rs, (t.batchRead (readEntries ks) projection l).2.sent = l.sent ++ rs ∧
          Gathers (t.projectedCall projection) t.gotBy (t.allRead keys.length) cs l
            (t.batchRead (readEntries ks) projection l).1 rs) := by
  rcases mapM_cases (fun k : Value × Value => t.requireKey k.1 k.2) ks with
    ⟨keys, hkeys, hall⟩ | ⟨before, k, after, e, rfl, hbefore, hk, hall⟩
  · have hwires : t.readKeys (readEntries ks) = .ok (keys.map Item.toValue) := by
      rw [readKeys_readEntries, mapM_fmap, hall]
      rfl
    refine ⟨fun ⟨k, hk, e, he⟩ => ?_, fun _ => ⟨keys, chunks readChunk (keys.map Item.toValue),
      hkeys, partitions_chunks (by decide) _, fun l => gathers_of_eq ?_⟩⟩
    · obtain ⟨key, hkey⟩ := exists_of_mapM hall hk
      rw [he] at hkey
      cases hkey
    · rw [batchRead_of_keys hwires, andThen, sendReads_eq, List.length_map,
        readCall_projectionParams]
      cases (gather (t.projectedCall projection) t.gotBy
          (chunks readChunk (keys.map Item.toValue)) l).1 with
      | error e => rfl
      | ok gots =>
        show (t.readOutcome _ (_, _), _) = _
        rw [readOutcome_flatMap]
        rfl
  · refine ⟨fun _ => ⟨before, k, after, e, rfl, hbefore, hk, refusesKey_of_requireKey hk, ?_⟩,
      fun hnone => ?_⟩
    · refine batchRead_of_error ?_ projection
      rw [readKeys_readEntries, mapM_fmap, hall]
      rfl
    · obtain ⟨key, hkey⟩ := hnone k (List.mem_append_right _ List.mem_cons_self)
      rw [hk] at hkey
      cases hkey

/-- One key more than a chunk takes, read with a projection. The first reply has two items, and the
second one of another table. -/
theorem batchRead_partitioned_keys :
    let key : Value := .record [("id", .record [("S", .text "k")])]
    let items (name : String) (ids : List String) : Value := .record [("Responses",
      .record [(name, .list (ids.map fun id => .record [("id", .record [("S", .text id)])]))])]
    let l : Link := { replies := [.ok (items "events" ["b", "a"]), .ok (items "other" ["c"])] }
    let read := eventsTable.batchRead (readEntries (List.replicate 101 (.text "k", .null)))
      (.text "id") l
    read.2.sent = [List.replicate 100 key, [key]].map (fun chunk =>
        ⟨.batchGetItem, [("RequestItems", .map [(.text "events", .map [(.text "Keys", .list chunk),
          (.text "ProjectionExpression", .text "id")])])]⟩) ∧
      read.1 = .ok (.list [.record [("id", .text "b")], .record [("id", .text "a")]]) := by
  intro key items l read
  have hkey : eventsTable.requireKey (.text "k") .null = .ok [("id", .s "k")] := rfl
  obtain ⟨keys, cs, hkeys, hcs, hrun⟩ := (batchRead_partitioned eventsTable
      (List.replicate 101 (.text "k", .null)) (.text "id")).2 fun k hk => by
    rw [List.eq_of_mem_replicate hk]
    exact ⟨_, hkey⟩
  have hunique : Relator.RightUnique fun (k : Value × Value) key =>
      eventsTable.requireKey k.1 k.2 = .ok key := fun _ _ _ h h' => Except.ok.inj (h.symm.trans h')
  obtain rfl := eq_replicate_of_forall₂ hunique hkey hkeys
  have hflat : [List.replicate 100 key, [key]].flatten =
      (List.replicate 101 [("id", Wire.s "k")]).map Item.toValue := rfl
  obtain rfl : cs = [List.replicate 100 key, [key]] := by
    refine hcs.eq_chunks.trans (Partitions.eq_chunks ⟨hflat, ?_, ?_⟩).symm <;> decide
  obtain ⟨rs, hsent, hgathers⟩ := hrun l
  have hreplies : (l.upcoming 2).map eventsTable.gotBy =
      [⟨[.record [("id", .record [("S", .text "b")])],
        .record [("id", .record [("S", .text "a")])]], []⟩, ⟨[], []⟩].map .ok := rfl
  obtain ⟨houtcome, hrs⟩ := hgathers.of_replies hreplies
  exact ⟨hsent.trans hrs, houtcome.trans rfl⟩

/-- A number that makes no bytes, as the value of a binary attribute: the key is refused, and not
by a rule of the library. -/
theorem not_batchRead_partitioned :
    let t : Table :=
      { gateway := ⟨default, "events"⟩
        schema := { hashKey := some "id", hashType := some .binary } }
    ∃ e, t.requireKey (.int (-1)) .null = .error e ∧
      t.batchRead (readEntries [(.int (-1), .null)]) .null = done (.error e) ∧
      ∀ message errors cause, e ≠ .validation message errors cause :=
  ⟨.fault .badValue, rfl, rfl, nofun⟩

end Table

end ItemStore
