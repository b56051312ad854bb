import ItemStore.Proofs.Keys.Whole
import ItemStore.Proofs.Table.Batches

/-
  The operations on items by key, and the keys that they send. Each of the seven takes its key or
  keys first. So it fails before anything is sent, or it sends requests that name their items by
  whole keys (`requests_whole`): every key has the key attributes of the schema and nothing else,
  every item has them among its attributes, each under a type declared for it. What an exchange
  sends is followed through its parts (`SendsAll.andThen`), and through a batch chunk by chunk.

  This asks of the schema that it knows the type of its range attribute. If it does not, the range
  value is left out and what is sent is a part of the key (`not_requests_whole`).
-/

namespace ItemStore

/-- The names of an item are those in its value. -/
theorem Item.names_eq_of_toValue_eq {item item' : Item} (h : item.toValue = item'.toValue) :
    item.map Prod.fst = item'.map Prod.fst := by
  have hnames : ∀ item : Item, (Wire.toValueFields item).map Prod.fst =
      (item.map Prod.fst).map Value.text := by
    intro item
    induction item with
    | nil => rfl
    | cons e item ih => rw [Wire.toValueFields, List.map_cons, List.map_cons, List.map_cons, ih]
  have hfields := congrArg (List.map Prod.fst) (Value.map.inj h)
  rw [hnames, hnames] at hfields
  exact (List.map_injective_iff.mpr fun _ _ => Value.text.inj) hfields

/-! ## Exchanges -/

namespace Exchange

variable {P : Request → Prop} {n : Nat}

/-- Whatever is replied, an exchange sends at least `n` requests, all with a property. -/
def SendsAll (P : Request → Prop) (n : Nat) (x : Exchange α) : Prop :=
  ∀ l, ∃ rs, (x l).2.sent = l.sent ++ rs ∧ n ≤ rs.length ∧ ∀ r ∈ rs, P r

theorem Quiet.sendsAll {x : Exchange α} (h : Quiet x) : SendsAll P 0 x := by
  intro l
  rw [h l]
  exact ⟨[], (List.append_nil _).symm, Nat.le_refl 0, List.forall_mem_nil _⟩

theorem Sends.sendsAll {x : Exchange α} {r : Request} (h : Sends x r) (hr : P r) :
    SendsAll P 1 x := by
  intro l
  rw [h l]
  exact ⟨[r], rfl, Nat.le_refl 1, List.forall_mem_singleton.mpr hr⟩

theorem SendsAll.mono {x : Exchange α} {m : Nat} (h : SendsAll P n x) (hm : m ≤ n) :
    SendsAll P m x := by
  intro l
  obtain ⟨rs, hsent, hn, hrs⟩ := h l
  exact ⟨rs, hsent, Nat.le_trans hm hn, hrs⟩

/-- What is sent by one exchange after another is what both send. -/
theorem SendsAll.andThen {x : Exchange α} {f : α → Exchange β} (hx : SendsAll P n x)
    (hf : ∀ a, SendsAll P 0 (f a)) : SendsAll P n (andThen x f) := by
  intro l
  obtain ⟨rs, hsent, hn, hrs⟩ := hx l
  rw [Exchange.andThen]
  generalize x l = answer at hsent
  obtain ⟨outcome, l'⟩ := answer
  cases outcome with
  | error e => exact ⟨rs, hsent, hn, hrs⟩
  | ok a =>
    obtain ⟨rs', hsent', -, hrs'⟩ := hf a l'
    refine ⟨rs ++ rs', ?_, ?_, fun r hr => (List.mem_append.mp hr).elim (hrs r) (hrs' r)⟩
    · dsimp only at hsent ⊢
      rw [hsent', hsent, List.append_assoc]
    · rw [List.length_append]
      exact Nat.le_trans hn (Nat.le_add_right _ _)

/-- An outcome that is taken first sends nothing. -/
theorem SendsAll.afterDone {outcome : Outcome α} {f : α → Exchange β}
    (hf : ∀ a, SendsAll P 0 (f a)) : SendsAll P 0 (Exchange.andThen (done outcome) f) :=
  (quiet_done outcome).sendsAll.andThen hf

end Exchange

open Exchange

namespace Gateway

theorem operation_of_request {g : Gateway} {operation : Operation} {options : Params} {r : Request}
    (h : g.request operation options = .ok r) : r.operation = operation := by
  unfold request at h
  split at h
  · cases h
  · cases h
    rfl

/-- A call fails before anything is sent, or it sends its request. -/
theorem call_cases (g : Gateway) (operation : Operation) (options : Params) :
    (∃ e, g.call operation options = done (.error e)) ∨
      ∃ params, g.request operation options = .ok ⟨operation, params⟩ ∧
        Sends (g.call operation options) ⟨operation, params⟩ := by
  cases h : g.request operation options with
  | error e =>
    refine .inl ⟨e, ?_⟩
    unfold call
    rw [h]
    rfl
  | ok r =>
    obtain ⟨operation', params⟩ := r
    cases operation_of_request h
    exact .inr ⟨params, rfl, sends_call h⟩

end Gateway

/-! ## Operations -/

/-- The operations on items by key. The options of a put do not stand in for its item. -/
inductive KeyedOperation where
  | get (hash range projection : Value)
  | put (hash range value : Value) (options : Params)
      (noItem : Entries.hasAny ["Item"] options = false)
  | putNew (hash range value : Value)
  | update (hash range source condition : Value)
  | delete (hash range : Value)
  | batchWrite (entries : Value)
  | batchRead (entries projection : Value)

namespace KeyedOperation

/-- The hash and range values of an entry of a batch. -/
def keyOf? (entry : Value) : Option (Value × Value) :=
  match entry.elements with
  | .ok (hash :: range :: _) => some (hash, range)
  | _ => none

/-- The hash and range values of all entries of a batch. -/
def keysOf (entries : Value) : List (Value × Value) :=
  match entries.elements with
  | .ok es => es.filterMap keyOf?
  | .error _ => []

/-- The hash and range values that an operation is given. -/
def keys : KeyedOperation → List (Value × Value)
  | .get hash range _ => [(hash, range)]
  | .put hash range _ _ _ => [(hash, range)]
  | .putNew hash range _ => [(hash, range)]
  | .update hash range _ _ => [(hash, range)]
  | .delete hash range => [(hash, range)]
  | .batchWrite entries => keysOf entries
  | .batchRead entries _ => keysOf entries

/-- The answer of what gives none. -/
def withoutAnswer (x : Exchange Unit) : Exchange Value :=
  andThen x fun _ => done (.ok .null)

/-- An operation on a table. -/
def run (t : Table) : KeyedOperation → Exchange Value
  | .get hash range projection => t.get hash range projection
  | .put hash range value options _ => withoutAnswer (t.put hash range value options)
  | .putNew hash range value => withoutAnswer (t.putNew hash range value)
  | .update hash range source condition => t.update hash range source condition
  | .delete hash range => withoutAnswer (t.delete hash range)
  | .batchWrite entries => withoutAnswer (t.batchWrite entries)
  | .batchRead entries projection => t.batchRead entries projection

end KeyedOperation

namespace Table

variable {t : Table} {hash range value : Value} {key item : Item}

/-! ## Requests under whole keys -/

/-- A write of a batch that names its item by a whole key. -/
inductive WholeWrite (s : Schema) : Value → Prop
  | removal {key : Item} (h : s.IsKey key) : WholeWrite s (removal key)
  | put {item : Item} (h : s.Keyed item) : WholeWrite s (putRequest item)

/-- A request that names the items that it is about by whole keys, in all places where requests
have keys or items. -/
inductive WholeRequest (t : Table) : Request → Prop
  | key {operation : Operation} {params : Params} {key : Item}
      (hoperation : operation ∈ [.getItem, .updateItem, .deleteItem]) (h : t.schema.IsKey key)
      (held : Entries.get? "Key" params = some key.toValue) : WholeRequest t ⟨operation, params⟩
  | item {params : Params} {item : Item} (h : t.schema.Keyed item)
      (held : Entries.get? "Item" params = some item.toValue) : WholeRequest t ⟨.putItem, params⟩
  | writes {chunk : List Value} (h : ∀ write ∈ chunk, WholeWrite t.schema write) :
      WholeRequest t (t.writeCall chunk)
  | reads {projection : Value} {chunk : List Value}
      (h : ∀ v ∈ chunk, ∃ key, t.schema.IsKey key ∧ v = key.toValue) :
      WholeRequest t (t.readCall (projectionParams projection) chunk)

/-- What a key is required to be: complete, as far as the schema knows. -/
theorem requireKey_spec (h : t.requireKey hash range = .ok key) :
    t.schema.key hash range = .ok key ∧ key ≠ [] ∧
      (range = .null → Schema.named? t.schema.rangeKey = none) := by
  unfold requireKey at h
  cases hkey : t.schema.key hash range with
  | error e =>
    rw [hkey] at h
    cases h
  | ok key' =>
    rw [hkey] at h
    change (if key'.isEmpty then _ else _) = _ at h
    split at h
    · cases h
    · next hempty =>
      split at h
      · cases h
      · next hother =>
        cases h
        refine ⟨rfl, fun hnil => hempty (List.isEmpty_iff.mpr hnil), fun hnull => ?_⟩
        exact Option.eq_none_iff_forall_ne_some.mpr fun rangeName hname =>
          hother rangeName hname hnull

theorem isKey_of_requireKey (hs : t.schema.IsTyped) (h : t.requireKey hash range = .ok key) :
    t.schema.IsKey key := by
  obtain ⟨hkey, hne, hnull⟩ := requireKey_spec h
  exact Schema.isKey_of_key hs hkey hne hnull

theorem keyedItem_spec (h : t.keyedItem hash range value = .ok item) :
    ∃ key attributes, t.requireKey hash range = .ok key ∧ value.toItem = .ok attributes ∧
      item = Entries.merge attributes key := by
  unfold keyedItem at h
  cases hkey : t.requireKey hash range with
  | error e =>
    rw [hkey] at h
    cases h
  | ok key =>
    rw [hkey] at h
    cases hitem : value.toItem with
    | error f =>
      rw [hitem] at h
      cases h
    | ok attributes =>
      rw [hitem] at h
      cases h
      exact ⟨key, attributes, rfl, rfl, rfl⟩

theorem keyed_of_keyedItem (hs : t.schema.IsTyped) (h : t.keyedItem hash range value = .ok item) :
    t.schema.Keyed item := by
  obtain ⟨key, attributes, hkey, -, rfl⟩ := keyedItem_spec h
  exact (isKey_of_requireKey hs hkey).keyed_merge attributes

/-! ## Refusals -/

section

variable {e : Failure}

/-- An operation whose key is refused fails so, before anything is sent. -/
theorem get_of_error (h : t.requireKey hash range = .error e) (projection : Value) :
    t.get hash range projection = done (.error e) := by
  unfold get
  rw [h]
  rfl

theorem update_of_error (h : t.requireKey hash range = .error e) (source condition : Value) :
    t.update hash range source condition = done (.error e) := by
  unfold update
  rw [h]
  rfl

theorem delete_of_error (h : t.requireKey hash range = .error e) :
    t.delete hash range = done (.error e) := by
  unfold delete
  rw [h]
  rfl

theorem put_of_error (h : t.keyedItem hash range value = .error e) {options : Params}
    (hnames : Entries.hasAny putNames options = false) :
    t.put hash range value options = done (.error e) := by
  rw [put_of_hasAny hnames, h]
  rfl

theorem putNew_of_error (h : t.keyedItem hash range value = .error e) :
    t.putNew hash range value = done (.error e) := by
  unfold putNew
  rw [h]
  rfl

theorem batchWrite_of_error {entries : Value} (h : t.writeRequests entries = .error e) :
    t.batchWrite entries = done (.error e) := by
  unfold batchWrite
  rw [h]
  rfl

theorem batchRead_of_error {entries : Value} (h : t.readKeys entries = .error e)
    (projection : Value) : t.batchRead entries projection = done (.error e) := by
  unfold batchRead
  rw [h]
  rfl

end

/-! ## Single items -/

/-- An exchange that fails before it sends anything, or that names its items by whole keys in all
that it sends, which is at least `n` requests. -/
def SendsWhole (t : Table) (n : Nat) (x : Exchange α) : Prop :=
  (∃ e, x = done (.error e)) ∨ SendsAll t.WholeRequest n x

/-- What takes no answer sends what it did. -/
theorem SendsWhole.withoutAnswer {n : Nat} {x : Exchange Unit} (h : t.SendsWhole n x) :
    t.SendsWhole n (KeyedOperation.withoutAnswer x) := by
  rcases h with ⟨e, rfl⟩ | h
  · exact .inl ⟨e, rfl⟩
  · exact .inr (h.andThen fun _ => (quiet_done _).sendsAll)

theorem get_sendsWhole (hs : t.schema.IsTyped) (hash range projection : Value) :
    t.SendsWhole 1 (t.get hash range projection) := by
  cases h : t.requireKey hash range with
  | error e => exact .inl ⟨e, get_of_error h projection⟩
  | ok key =>
    exact .inr ((get_sends h projection).sendsAll
      (.key List.mem_cons_self (isKey_of_requireKey hs h) rfl))

/-- A put of an item whose further parameters are none named as the item. -/
theorem putItem_sendsWhole (h : t.schema.Keyed item) {options : Params}
    (hoptions : "Item" ∉ options.map Prod.fst) :
    t.SendsWhole 1 (andThen
      (t.gateway.call .putItem (Entries.merge [("Item", item.toValue)] options))
      fun _ => done (.ok ())) := by
  rcases t.gateway.call_cases .putItem (Entries.merge [("Item", item.toValue)] options) with
    ⟨e, he⟩ | ⟨params, hrequest, hsends⟩
  · rw [he]
    exact .inl ⟨e, rfl⟩
  · refine .inr ((hsends.andThen fun _ => quiet_done _).sendsAll (.item h ?_))
    have hname : "Item" ≠ "TableName" ∧ "Item" ≠ Gateway.resourceOption := by decide
    rw [Gateway.get?_of_request hrequest (Entries.nodup_merge (List.pairwise_singleton _ "Item"))
      hname.1 hname.2, Entries.get?_merge_of_notMem hoptions]
    rfl

theorem put_sendsWhole (hs : t.schema.IsTyped) (hash range value : Value) {options : Params}
    (hoptions : "Item" ∉ options.map Prod.fst) :
    t.SendsWhole 1 (t.put hash range value options) := by
  cases hnames : Entries.hasAny putNames options with
  | true =>
    refine .inl ⟨.fault .wrongKind, ?_⟩
    unfold put
    rw [hnames]
    rfl
  | false =>
    rw [put_of_hasAny hnames]
    cases h : t.keyedItem hash range value with
    | error e => exact .inl ⟨e, rfl⟩
    | ok item => exact putItem_sendsWhole (keyed_of_keyedItem hs h) hoptions

theorem putNew_sendsWhole (hs : t.schema.IsTyped) (hash range value : Value) :
    t.SendsWhole 1 (t.putNew hash range value) := by
  unfold putNew
  cases h : t.keyedItem hash range value with
  | error e => exact .inl ⟨e, rfl⟩
  | ok item =>
    cases hc : isNew t.schema with
    | error e => exact .inl ⟨e, rfl⟩
    | ok c =>
      refine putItem_sendsWhole (keyed_of_keyedItem hs h)
        (Entries.notMem_of_get? (c.nodup_toParams "ConditionExpression") ?_)
      exact Compiled.get?_toParams_other (by decide) fun kind => by cases kind <;> decide

theorem update_sendsWhole (hs : t.schema.IsTyped) (hash range source condition : Value) :
    t.SendsWhole 1 (t.update hash range source condition) := by
  cases h : t.requireKey hash range with
  | error e => exact .inl ⟨e, update_of_error h source condition⟩
  | ok key =>
    by_cases hupdates : t.Updates source condition
    · obtain ⟨params, hsends, hkey⟩ := update_sends h hupdates
      exact .inr (hsends.sendsAll (.key (List.mem_cons_of_mem _ List.mem_cons_self)
        (isKey_of_requireKey hs h) hkey))
    · exact .inl (update_fails h hupdates)

theorem delete_sendsWhole (hs : t.schema.IsTyped) (hash range : Value) :
    t.SendsWhole 1 (t.delete hash range) := by
  cases h : t.requireKey hash range with
  | error e => exact .inl ⟨e, delete_of_error h⟩
  | ok key =>
    exact .inr ((delete_sends h).sendsAll (.key
      (List.mem_cons_of_mem _ (List.mem_cons_of_mem _ List.mem_cons_self))
      (isKey_of_requireKey hs h) rfl))

/-! ## Batches -/

theorem wholeWrite_of_writeRequest (hs : t.schema.IsTyped) {entry write : Value}
    (h : t.writeRequest entry = .ok write) : WholeWrite t.schema write := by
  obtain ⟨hash, range, value, helements⟩ := elements_of_writeRequest h
  by_cases hnull : value = .null
  · subst hnull
    rw [writeRequest_null helements] at h
    obtain ⟨key, hkey, rfl⟩ := map_eq_ok h
    exact .removal (isKey_of_requireKey hs hkey)
  · rw [writeRequest_of_ne_null helements hnull] at h
    obtain ⟨item, hitem, rfl⟩ := map_eq_ok h
    exact .put (keyed_of_keyedItem hs hitem)

theorem isKey_of_readKey (hs : t.schema.IsTyped) {entry v : Value} (h : t.readKey entry = .ok v) :
    ∃ key, t.schema.IsKey key ∧ v = key.toValue := by
  obtain ⟨hash, range, helements⟩ := elements_of_readKey h
  rw [readKey_of_elements helements] at h
  obtain ⟨key, hkey, rfl⟩ := map_eq_ok h
  exact ⟨key, isKey_of_requireKey hs hkey, rfl⟩

/-- The chunks of a list are made of its elements. -/
theorem mem_of_mem_chunks {α : Type} {size : Nat} {xs chunk : List α} {x : α}
    (hchunk : chunk ∈ chunks size xs) (hx : x ∈ chunk) : x ∈ xs := by
  rw [← flatten_chunks size xs]
  exact List.mem_flatten_of_mem hchunk hx

/-- There are chunks of what has elements. -/
theorem min_le_length_chunks {α : Type} (size : Nat) {xs : List α} {n : Nat}
    (h : n ≤ xs.length) : min 1 n ≤ min 1 (chunks size xs).length := by
  have hempty : (chunks size xs).length = 0 → xs.length = 0 := by
    intro hlength
    rw [← flatten_chunks size xs, List.length_eq_zero_iff.mp hlength]
    rfl
  omega

theorem sendWrites_sendsAll {cs : List (List Value)}
    (h : ∀ chunk ∈ cs, ∀ write ∈ chunk, WholeWrite t.schema write) :
    SendsAll t.WholeRequest (min 1 cs.length) (t.sendWrites cs) := by
  induction cs with
  | nil => exact Quiet.sendsAll fun _ => rfl
  | cons chunk rest ih =>
    obtain ⟨hchunk, hrest⟩ := List.forall_mem_cons.mp h
    rw [sendWrites_step]
    refine (((t.batchWrite_chunk_sends chunk).sendsAll (.writes hchunk)).andThen
      fun reply => ?_).mono (Nat.min_le_left _ _)
    refine .afterDone fun xs => ?_
    exact ((ih hrest).mono (Nat.zero_le _)).andThen fun ys => (quiet_done _).sendsAll

theorem sendReads_sendsAll {cs : List (List Value)} (projection : Value)
    (h : ∀ chunk ∈ cs, ∀ v ∈ chunk, ∃ key, t.schema.IsKey key ∧ v = key.toValue) :
    SendsAll t.WholeRequest (min 1 cs.length) (t.sendReads (projectionParams projection) cs) := by
  induction cs with
  | nil => exact Quiet.sendsAll fun _ => rfl
  | cons chunk rest ih =>
    obtain ⟨hchunk, hrest⟩ := List.forall_mem_cons.mp h
    rw [sendReads_step]
    refine (((t.batchGet_sends chunk _).sendsAll (.reads hchunk)).andThen fun reply => ?_).mono
      (Nat.min_le_left _ _)
    refine .afterDone fun got => ?_
    exact ((ih hrest).mono (Nat.zero_le _)).andThen fun p => (quiet_done _).sendsAll

/-- The writes of a batch are made of its entries. -/
theorem writeRequests_spec {entries : Value} {requests : List Value}
    (h : t.writeRequests entries = .ok requests) :
    ∃ es, entries.elements = .ok es ∧ es.mapM t.writeRequest = .ok requests := by
  unfold writeRequests at h
  cases helements : entries.elements with
  | error f =>
    rw [helements] at h
    cases h
  | ok es =>
    rw [helements] at h
    exact ⟨es, rfl, h⟩

theorem readKeys_spec {entries : Value} {keys : List Value} (h : t.readKeys entries = .ok keys) :
    ∃ es, entries.elements = .ok es ∧ es.mapM t.readKey = .ok keys := by
  unfold readKeys at h
  cases helements : entries.elements with
  | error f =>
    rw [helements] at h
    cases h
  | ok es =>
    rw [helements] at h
    exact ⟨es, rfl, h⟩

theorem length_keysOf_le {entries : Value} {es ys : List Value} {f : Value → Outcome Value}
    (helements : entries.elements = .ok es) (h : es.mapM f = .ok ys) :
    (KeyedOperation.keysOf entries).length ≤ ys.length := by
  rw [KeyedOperation.keysOf, helements, length_of_mapM h]
  exact List.length_filterMap_le _ es

theorem batchWrite_sendsWhole (hs : t.schema.IsTyped) (entries : Value) :
    t.SendsWhole (min 1 (KeyedOperation.keysOf entries).length) (t.batchWrite entries) := by
  cases hr : t.writeRequests entries with
  | error e => exact .inl ⟨e, batchWrite_of_error hr⟩
  | ok requests =>
    obtain ⟨es, helements, hall⟩ := writeRequests_spec hr
    have hwhole := forall_of_mapM hall fun _ _ => wholeWrite_of_writeRequest hs
    have hsend : SendsAll t.WholeRequest _ (t.sendWrites (chunks writeChunk requests)) :=
      sendWrites_sendsAll fun chunk hchunk write hwrite =>
        hwhole write (mem_of_mem_chunks hchunk hwrite)
    rw [batchWrite_of_requests hr]
    exact .inr ((hsend.mono (min_le_length_chunks _ (length_keysOf_le helements hall))).andThen
      fun left => (quiet_done _).sendsAll)

theorem batchRead_sendsWhole (hs : t.schema.IsTyped) (entries projection : Value) :
    t.SendsWhole (min 1 (KeyedOperation.keysOf entries).length)
      (t.batchRead entries projection) := by
  cases hk : t.readKeys entries with
  | error e => exact .inl ⟨e, batchRead_of_error hk projection⟩
  | ok keys =>
    obtain ⟨es, helements, hall⟩ := readKeys_spec hk
    have hwhole := forall_of_mapM hall fun _ _ => isKey_of_readKey hs
    have hsend : SendsAll t.WholeRequest _
        (t.sendReads (projectionParams projection) (chunks readChunk keys)) :=
      sendReads_sendsAll projection fun chunk hchunk v hv =>
        hwhole v (mem_of_mem_chunks hchunk hv)
    rw [batchRead_of_keys hk]
    exact .inr ((hsend.mono (min_le_length_chunks _ (length_keysOf_le helements hall))).andThen
      fun p => (quiet_done _).sendsAll)

/-! ## Every operation -/

/-- Every operation on items by key fails before anything is sent, or names its items by whole keys
in all requests that it sends, of which there is one at least if it is given a key. -/
theorem requests_whole (t : Table) (hs : t.schema.IsTyped) (op : KeyedOperation) :
    (∃ e, op.run t = done (.error e)) ∨
      SendsAll t.WholeRequest (min 1 op.keys.length) (op.run t) := by
  cases op with
  | get hash range projection => exact get_sendsWhole hs hash range projection
  | put hash range value options noItem =>
    refine (put_sendsWhole hs hash range value fun hmem => ?_).withoutAnswer
    obtain ⟨e, he, hname⟩ := List.mem_map.mp hmem
    exact List.any_eq_false.mp noItem e he (List.elem_iff.mpr (hname ▸ List.mem_cons_self))
  | putNew hash range value => exact (putNew_sendsWhole hs hash range value).withoutAnswer
  | update hash range source condition => exact update_sendsWhole hs hash range source condition
  | delete hash range => exact (delete_sendsWhole hs hash range).withoutAnswer
  | batchWrite entries => exact (batchWrite_sendsWhole hs entries).withoutAnswer
  | batchRead entries projection => exact batchRead_sendsWhole hs entries projection

/-- A table of events by tenant and time. -/
def eventLog : Table :=
  { gateway := ⟨default, "events"⟩
    schema := { hashKey := some "tenant", hashType := some .text
                rangeKey := some "ts", rangeType := some .number } }

/-- A put and a delete in one batch. -/
def putAndDelete : Value :=
  .list [.seq .tuple [.text "a", .int 1, .record [("score", .int 12)]],
    .seq .tuple [.text "a", .int 2, .null]]

theorem requests_whole_putAndDelete : eventLog.schema.IsTyped ∧
    SendsAll eventLog.WholeRequest 1 ((KeyedOperation.batchWrite putAndDelete).run eventLog) := by
  have hs : eventLog.schema.IsTyped := by decide
  refine ⟨hs, (eventLog.requests_whole hs (.batchWrite putAndDelete)).resolve_left ?_⟩
  rintro ⟨e, he⟩
  have hsent : (((KeyedOperation.batchWrite putAndDelete).run eventLog) {}).2.sent.length = 1 := by
    decide +kernel
  rw [he] at hsent
  cases hsent

/-- A schema that names a range attribute but has no type for it: the key is sent without. -/
theorem not_requests_whole :
    let t : Table :=
      { gateway := ⟨default, "events"⟩
        schema := { hashKey := some "tenant", hashType := some .text, rangeKey := some "ts" } }
    let op : KeyedOperation := .get (.text "a") (.int 1) .null
    t.schema.keyNames = ["tenant", "ts"] ∧
      Sends (op.run t) ⟨.getItem, [("TableName", .text "events"),
        ("Key", .record [("tenant", .record [("S", .text "a")])])]⟩ ∧
      ¬((∃ e, op.run t = done (.error e)) ∨ SendsAll t.WholeRequest 1 (op.run t)) := by
  intro t op
  have hkey : t.requireKey (.text "a") (.int 1) = .ok [("tenant", .s "a")] := rfl
  have hsends : Sends (op.run t) ⟨.getItem, [("TableName", .text "events"),
      ("Key", .record [("tenant", .record [("S", .text "a")])])]⟩ := get_sends hkey .null
  refine ⟨by decide, hsends, ?_⟩
  rintro (⟨e, he⟩ | hall)
  · have hsent := hsends {}
    rw [he] at hsent
    cases hsent
  · obtain ⟨rs, hsent, -, hwhole⟩ := hall {}
    rw [hsends] at hsent
    obtain rfl : rs = [_] := hsent.symm
    have hget := hwhole _ List.mem_cons_self
    generalize hr : (⟨.getItem, _⟩ : Request) = r at hget
    cases hget with
    | @key _ _ key _ h held =>
      cases hr
      have hvalue : Item.toValue [("tenant", .s "a")] = key.toValue := Option.some.inj held
      have hnone : Entries.get? "ts" key = none := by
        refine Entries.get?_of_notMem (Entries.sole_of_lawful _) ?_
        rw [← Item.names_eq_of_toValue_eq hvalue]
        decide
      obtain ⟨type, w, -, hts, -⟩ := h.keyed "ts" (by decide)
      rw [hnone] at hts
      cases hts
    | item h held => cases hr
    | writes h => cases hr
    | reads h => cases hr

end Table

end ItemStore
