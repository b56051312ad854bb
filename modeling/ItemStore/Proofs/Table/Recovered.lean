import ItemStore.Proofs.Keys.Split
import ItemStore.Proofs.Table.Keyed

/-
  What a put writes is what reads give back. The key is written under the types that the schema
  declares, the attributes of an item under the shape of their values, and what comes back is read
  by tags alone. `put_recovered` brings the three together for one item: a put and a batch send it
  (`Writes`), the operations under a key send the part of it that is the key (`Addresses`), and it
  is read back as the value that was put, with the key's attributes in place of those of the same
  name (`Recovers`), from the reply to a read of one item and from the pages of queries and scans.

  A page is met by a read in any state in which it fetches (`HasRead`): as it starts, after changes,
  or in the midst of its pages.
-/

namespace ItemStore

open Exchange

namespace Pages

/-! ## Pages pulled -/

theorem fill_of_buffer (source : PageSource) {p : Pages} (l : Link) (h : p.buffer ≠ []) :
    fill source p l = (p, l) := by
  rw [fill_eq]
  exact if_pos (by rw [List.isEmpty_eq_false_iff.mpr h]; rfl)

/-- What is in the buffer of a read comes first. -/
theorem pulls_of_buffer (source : PageSource) {es rest : List Entry} {p : Pages} (l : Link)
    (h : p.buffer = es ++ rest) : (pulls source es.length p l).1 = es.map some := by
  induction es generalizing p with
  | nil => rfl
  | cons e es ih =>
    have hne : ({ p with isStarted := true } : Pages).buffer ≠ [] := by
      rw [h]
      exact List.cons_ne_nil _ _
    have hpull : pull source p l =
        (some e, { p with isStarted := true, buffer := es ++ rest }, l) := by
      rw [pull, fill_of_buffer source l hne]
      dsimp only
      rw [h]
      rfl
    rw [List.length_cons, pulls, hpull]
    exact congrArg (some e :: ·) (ih rfl)

/-- A read with nothing in its buffer gives the entries of the page that it fetches. -/
theorem pulls_of_fetch {source : PageSource} {p : Pages} {l l' : Link} {page : Page}
    (hbuffer : p.buffer = []) (hx : p.isExhausted = false)
    (hfetch : fetch source p l = (.ok page, l')) :
    (pulls source page.entries.length p l).1 = page.entries.map some := by
  cases hentries : page.entries with
  | nil => rfl
  | cons e es =>
    have hfetched : fetched source { p with isStarted := true } l =
        (({ p with isStarted := true } : Pages).received page, l') := by
      have hstarted : fetch source { p with isStarted := true } l = (.ok page, l') := hfetch
      rw [fetched, hstarted]
    have hreceived : (({ p with isStarted := true } : Pages).received page).buffer = e :: es := by
      rw [buffer_received, ← hentries]
      show p.buffer ++ page.entries = page.entries
      rw [hbuffer, List.nil_append]
    have hpull : pull source p l = (some e,
        { ({ p with isStarted := true } : Pages).received page with buffer := es }, l') := by
      rw [pull, fill_eq, if_neg (by simp [hbuffer, hx]), hfetched,
        fill_of_buffer source l' (by rw [hreceived]; exact List.cons_ne_nil _ _)]
      dsimp only
      rw [hreceived]
      rfl
    rw [List.length_cons, pulls, hpull]
    exact congrArg (some e :: ·) (pulls_of_buffer source l' (List.append_nil es).symm)

/-! ## Reads of a table -/

/-- A read that takes items as another does. -/
structure ReadsAs (p p' : Pages) : Prop where
  schema_eq : p'.schema = p.schema
  decimalNumbers_eq : p'.decimalNumbers = p.decimalNumbers

theorem ReadsAs.received (p : Pages) (page : Page) : ReadsAs p (p.received page) := by
  cases h : isLast p.isLimited page.lastKey with
  | true =>
    rw [received_of_isLast h]
    exact ⟨rfl, rfl⟩
  | false =>
    rw [received_of_not_isLast h]
    exact ⟨rfl, rfl⟩

theorem ReadsAs.trans {p p' p'' : Pages} (h : ReadsAs p p') (h' : ReadsAs p' p'') : ReadsAs p p'' :=
  ⟨h'.schema_eq.trans h.schema_eq, h'.decimalNumbers_eq.trans h.decimalNumbers_eq⟩

theorem ReadsAs.fill (source : PageSource) (p : Pages) (l : Link) :
    ReadsAs p (fill source p l).1 := by
  fun_induction Pages.fill source p l with
  | case1 p l => exact ⟨rfl, rfl⟩
  | case2 p l hbuffer e l' hfetch => exact ⟨rfl, rfl⟩
  | case3 p l hbuffer page l' hfetch _ ih => exact (ReadsAs.received p page).trans ih

/-- A change to a read changes nothing of how it takes items. -/
theorem ReadsAs.apply (p : Pages) (change : Change) : ReadsAs p (change.apply p).2 := by
  cases change with
  | projection value =>
    show ReadsAs p (p.setProjection value).2
    unfold setProjection
    split <;> exact ⟨rfl, rfl⟩
  | filter source =>
    show ReadsAs p (p.addFilter source).2
    unfold addFilter
    split
    · exact ⟨rfl, rfl⟩
    · split
      · exact ⟨rfl, rfl⟩
      · split <;> exact ⟨rfl, rfl⟩

end Pages

namespace Table

/-- The states of the reads of a table: those of queries and scans, after any changes and pulls. -/
inductive HasRead (t : Table) : Pages → Prop
  | query {source projection limit : Value} {options : Params} {p : Pages}
      (h : t.query source projection limit options = .ok p) : HasRead t p
  | scan {source projection limit : Value} {options : Params} {p : Pages}
      (h : t.scan source projection limit options = .ok p) : HasRead t p
  | change {p : Pages} (h : HasRead t p) (change : Pages.Change) : HasRead t (change.apply p).2
  | pull {p : Pages} (h : HasRead t p) (l : Link) :
      HasRead t (Pages.pull (t.gateway.pageSource p.method) p l).2.1

variable {t : Table}

/-- A read of a table is the one that its expression starts, with its projection if it has one. -/
theorem start_of_read {method : ReadMethod} {source projection limit : Value} {options : Params}
    {p : Pages} (h : t.read method source projection limit options = .ok p) :
    ∃ c p', t.compile source 1 = .ok c ∧
      Pages.start method t.schema t.grammar t.decimalNumbers c limit options = .ok p' ∧
      (p = p' ∨
        p = { p' with params := Entries.insert "ProjectionExpression" projection p'.params }) := by
  unfold read at h
  cases hself : Entries.hasAny ["self", "method"] options with
  | true =>
    rw [hself] at h
    cases h
  | false =>
    rw [hself] at h
    cases hc : t.compile source 1 with
    | error e =>
      rw [hc] at h
      cases h
    | ok c =>
      rw [hc] at h
      change (Pages.start method t.schema t.grammar t.decimalNumbers c limit options).bind _ =
        _ at h
      cases hstart : Pages.start method t.schema t.grammar t.decimalNumbers c limit options with
      | error e =>
        rw [hstart] at h
        cases h
      | ok p' =>
        refine ⟨c, p', rfl, hstart, ?_⟩
        rw [hstart] at h
        change (if projection.isTruthy then _ else _) = _ at h
        split at h
        · cases h
          exact .inr rfl
        · cases h
          exact .inl rfl

theorem read_spec {method : ReadMethod} {source projection limit : Value} {options : Params}
    {p : Pages} (h : t.read method source projection limit options = .ok p) :
    p.schema = t.schema ∧ p.decimalNumbers = t.decimalNumbers := by
  obtain ⟨c, p', -, hstart, hp⟩ := start_of_read h
  obtain ⟨hschema, hnumbers, -⟩ := Pages.start_fresh hstart
  rcases hp with rfl | rfl
  · exact ⟨hschema, hnumbers⟩
  · exact ⟨hschema, hnumbers⟩

theorem query_spec {source projection limit : Value} {options : Params} {p : Pages}
    (h : t.query source projection limit options = .ok p) :
    t.read .query source projection limit options = .ok p := by
  unfold query at h
  cases hc : t.compile source 1 with
  | error e =>
    rw [hc] at h
    cases h
  | ok c =>
    rw [hc] at h
    change (if c.isEmpty || c.values.isEmpty then _ else _) = _ at h
    split at h
    · cases h
    · exact h

/-- Every read of a table takes items by its schema and reads numbers as the table does. -/
theorem HasRead.readsAs {p : Pages} (h : t.HasRead p) :
    p.schema = t.schema ∧ p.decimalNumbers = t.decimalNumbers := by
  induction h with
  | query h => exact read_spec (query_spec h)
  | scan h => exact read_spec h
  | @change p h change ih =>
    have hstep := Pages.ReadsAs.apply p change
    exact ⟨hstep.schema_eq.trans ih.1, hstep.decimalNumbers_eq.trans ih.2⟩
  | @pull p h l ih =>
    have hstep := Pages.ReadsAs.fill (t.gateway.pageSource p.method) { p with isStarted := true } l
    exact ⟨hstep.schema_eq.trans ih.1, hstep.decimalNumbers_eq.trans ih.2⟩

/-- A page with an item among others gives its entry between theirs. -/
theorem pulls_page {p : Pages} (h : t.HasRead p) (hbuffer : p.buffer = [])
    (hx : p.isExhausted = false) {l : Link} {request : Request} {reply : Value}
    (hrequest : (t.gateway.pageSource p.method).request p.params = .ok request)
    (hreply : l.next = .ok reply) {before after : List Value} {item : Value}
    (hitems : pageItems reply = .ok (before ++ item :: after)) {es es' : List Entry} {entry : Entry}
    (hbefore : before.mapM (Entry.ofItem t.schema t.decimalNumbers) = .ok es)
    (hitem : Entry.ofItem t.schema t.decimalNumbers item = .ok entry)
    (hafter : after.mapM (Entry.ofItem t.schema t.decimalNumbers) = .ok es') :
    (Pages.pulls (t.gateway.pageSource p.method) (es ++ entry :: es').length p l).1 =
      (es ++ entry :: es').map some := by
  have hentries : (before ++ item :: after).mapM (Entry.ofItem t.schema t.decimalNumbers) =
      .ok (es ++ entry :: es') := by
    rw [List.mapM_append, hbefore, List.mapM_cons, hitem, hafter]
    rfl
  have hpage : p.page reply = .ok ⟨es ++ entry :: es', lastKey reply⟩ := by
    have hall : pageEntries t.schema t.decimalNumbers reply = .ok (es ++ entry :: es') := by
      rw [pageEntries, hitems]
      exact hentries
    rw [Pages.page_eq, h.readsAs.1, h.readsAs.2, hall]
    rfl
  have hfetch : Pages.fetch (t.gateway.pageSource p.method) p l =
      (.ok ⟨es ++ entry :: es', lastKey reply⟩, l.after request) := by
    rw [Pages.fetch, hrequest]
    dsimp only
    rw [Link.send_eq, hreply]
    dsimp only
    rw [hpage]
  exact Pages.pulls_of_fetch hbuffer hx hfetch

/-! ## Writes and reads of one item -/

variable {hash range : Value} {keyFields : Params}

/-- The key of values of the declared kinds is complete, if they are writable. -/
theorem requireKey_eq (h : t.schema.HasKey hash range keyFields) :
    t.requireKey hash range = if (Value.record keyFields).isWritable then
      .ok (Item.ofParams keyFields) else .error (.fault .badValue) := by
  unfold requireKey
  rw [h.key_eq]
  cases (Value.record keyFields).isWritable with
  | false => rfl
  | true =>
    cases h with
    | hashOnly _ noRange _ =>
      rw [noRange]
      rfl
    | ranged _ range?_eq _ _ takes' =>
      rw [Schema.named?_of_attribute? range?_eq]
      cases takes' <;> rfl

/-- The item of a record under a key: its fields with the key's put into them, if both are
writable. -/
theorem keyedItem_eq (h : t.schema.HasKey hash range keyFields) {fields : Params}
    (hnodup : (fields.map Prod.fst).Nodup) :
    t.keyedItem hash range (.record fields) =
      if (Value.record keyFields).isWritable && (Value.record fields).isWritable then
        .ok (Item.ofParams (Entries.merge fields keyFields))
      else .error (.fault .badValue) := by
  unfold keyedItem
  rw [requireKey_eq h, Value.toItem_record hnodup, ← Value.merge_ofParams]
  cases (Value.record keyFields).isWritable <;> cases (Value.record fields).isWritable <;> rfl

/-- A value under a key is written as an item: by a put, by a batch of it alone, and by every batch
with it that succeeds. -/
structure Writes (t : Table) (hash range value : Value) (item : Item) : Prop where
  put : ∀ options, Entries.hasAny putNames options = false →
    (∀ name ∈ "Item" :: Gateway.reservedNames, Entries.get? name options = none) →
    (options.map Prod.fst).Nodup →
    ∃ params, Sends (t.put hash range value options) ⟨.putItem, params⟩ ∧
      Entries.get? "Item" params = some item.toValue
  batchWrite : ∀ kind kind', Sends (t.batchWrite (.seq kind [.seq kind' [hash, range, value]]))
    (t.writeCall [putRequest item])
  inBatch : ∀ kind kind' entries l, .seq kind' [hash, range, value] ∈ entries →
    (t.batchWrite (.seq kind entries) l).1 = .ok () →
    ∃ cs : List (List Value), (t.batchWrite (.seq kind entries) l).2.sent =
        l.sent ++ cs.map t.writeCall ∧ ∃ chunk ∈ cs, putRequest item ∈ chunk

/-- The operations under a key name it by the same item. An update sends nothing at all if it has
nothing to change, or a condition that does not compile. -/
structure Addresses (t : Table) (hash range : Value) (key : Item) : Prop where
  get : ∀ projection, Sends (t.get hash range projection) (t.getCall key projection)
  delete : Sends (t.delete hash range)
    ⟨.deleteItem, [("TableName", .text t.name), ("Key", key.toValue)]⟩
  update : ∀ source condition, t.Updates source condition →
    ∃ params, Sends (t.update hash range source condition) ⟨.updateItem, params⟩ ∧
      Entries.get? "Key" params = some key.toValue
  noUpdate : ∀ source condition, ¬t.Updates source condition →
    Quiet (t.update hash range source condition)
  batchRead : ∀ kind kind' projection,
    Sends (t.batchRead (.seq kind [.seq kind' [hash, range]]) projection)
      (t.readCall (projectionParams projection) [key.toValue])
  inBatch : ∀ kind kind' entries projection l v, .seq kind' [hash, range] ∈ entries →
    (t.batchRead (.seq kind entries) projection l).1 = .ok v →
    ∃ cs : List (List Value), (t.batchRead (.seq kind entries) projection l).2.sent =
        l.sent ++ cs.map (t.readCall (projectionParams projection)) ∧
      ∃ chunk ∈ cs, key.toValue ∈ chunk

/-- An item under a key is read back: a reply with it is answered by its plain map, and a page with
it among others gives its entry between theirs. -/
structure Recovers (t : Table) (hash range : Value) (item : Item) (plain : Value) (entry : Entry) :
    Prop where
  get : ∀ projection l reply, l.next = .ok reply →
    reply.fieldD "Item" .null = .ok item.toValue →
    (t.get hash range projection l).1 = .ok plain
  page : ∀ p, t.HasRead p → p.buffer = [] → p.isExhausted = false →
    ∀ l request reply, (t.gateway.pageSource p.method).request p.params = .ok request →
    l.next = .ok reply → ∀ before after es es',
    pageItems reply = .ok (before ++ item.toValue :: after) →
    before.mapM (Entry.ofItem t.schema t.decimalNumbers) = .ok es →
    after.mapM (Entry.ofItem t.schema t.decimalNumbers) = .ok es' →
    (Pages.pulls (t.gateway.pageSource p.method) (es ++ entry :: es').length p l).1 =
      (es ++ entry :: es').map some

theorem writes_of_keyedItem {value : Value} {item : Item}
    (h : t.keyedItem hash range value = .ok item) (hne : value ≠ .null) :
    t.Writes hash range value item where
  put _ hnames hfree hnodup := put_sends h hnames hfree hnodup
  batchWrite kind kind' := by
    have hr : t.writeRequests (.seq kind [.seq kind' [hash, range, value]]) =
        .ok [putRequest item] := by
      show [Value.seq kind' [hash, range, value]].mapM t.writeRequest = _
      rw [List.mapM_cons, writeRequest_put h hne]
      rfl
    exact batchWrite_sends hr
  inBatch _ kind' _ _ hmem hok := batchWrite_sent (writeRequest_put h hne kind') hmem hok

theorem addresses_of_requireKey {key : Item} (h : t.requireKey hash range = .ok key) :
    t.Addresses hash range key where
  get projection := get_sends h projection
  delete := delete_sends h
  update _ _ hupdates := update_sends h hupdates
  noUpdate _ _ hnot := update_quiet h hnot
  batchRead kind kind' projection := by
    have hk : t.readKeys (.seq kind [.seq kind' [hash, range]]) = .ok [key.toValue] := by
      show [Value.seq kind' [hash, range]].mapM t.readKey = _
      rw [List.mapM_cons, readKey_eq h]
      rfl
    exact batchRead_sends hk
  inBatch _ kind' _ _ _ _ hmem hok := batchRead_sent (readKey_eq h kind') hmem hok

/-- The key is the part of an item under the names of the key attributes. -/
theorem get?_key (h : t.schema.HasKey hash range keyFields) (fields : Params) (name : String) :
    Entries.get? name (Item.ofParams keyFields) =
      if name ∈ t.schema.keyNames then
        Entries.get? name (Item.ofParams (Entries.merge fields keyFields))
      else none := by
  rw [Value.get?_ofParams, Value.get?_ofParams, h.keyNames_eq]
  split
  · next hmem =>
    obtain ⟨e, he, rfl⟩ := List.mem_map.mp hmem
    rw [h.get?_merge fields he, Entries.get?_of_mem (Entries.sole_of_lawful e.1) h.nodup he]
  · next hmem =>
    rw [Entries.get?_of_notMem (Entries.sole_of_lawful name) hmem]
    rfl

/-- What a put writes under a key of the declared kinds is read back under it: the value with the
key's attributes put into it, whole as the answer to a read of one item, and in a page as the key
values and the attributes of the value that are not named as the key's. The key that the other
operations send is the part of the item under the names of the key attributes. When numbers are not
read as decimals, reading back changes nothing. A put of a value or a key that is not writable
sends nothing. -/
theorem put_recovered (t : Table) {hash range : Value} {keyFields fields : Params}
    (hkey : t.schema.HasKey hash range keyFields)
    (hfields : (Value.record fields).isRecoverable t.decimalNumbers = true) :
    let stored := Entries.merge fields keyFields
    let item := Item.ofParams stored
    let key := Item.ofParams keyFields
    if (Value.record keyFields).isWritable && (Value.record fields).isWritable then
      t.Writes hash range (.record fields) item ∧
        t.Addresses hash range key ∧
        (∀ name, Entries.get? name key =
          if name ∈ t.schema.keyNames then Entries.get? name item else none) ∧
        t.Recovers hash range item ((Value.record stored).readBack t.decimalNumbers)
          { key := keyFields.map fun e => e.2.readBack t.decimalNumbers
            value := (fields.filter fun e => !t.schema.keyNames.contains e.1).map
              (Prod.map id (Value.readBack t.decimalNumbers)) }
    else
      ∀ options, Entries.hasAny putNames options = false →
        t.put hash range (.record fields) options = done (.error (.fault .badValue)) := by
  intro stored item key
  have hnodup : (fields.map Prod.fst).Nodup := (Value.isMadeOf_record.mp hfields).1
  have hkeyed := keyedItem_eq hkey hnodup
  split
  · next hw =>
    rw [if_pos hw] at hkeyed
    obtain ⟨hwkey, hwfields⟩ := Bool.and_eq_true_iff.mp hw
    have hrequire : t.requireKey hash range = .ok key := by rw [requireKey_eq hkey, if_pos hwkey]
    have hread : (Value.record fields).isReadable t.decimalNumbers = true :=
      Value.isReadable_of_isRecoverable hfields hwfields
    have hstored : (Value.record stored).isReadable t.decimalNumbers = true :=
      Value.isReadable_merge hread (hkey.isReadable hwkey t.decimalNumbers)
    have hplain : t.plain item.toValue = .ok ((Value.record stored).readBack t.decimalNumbers) :=
      Value.fromItem_ofParams (Value.isReadable_record.mp hstored).2
    -- an empty item would be told as not found, but this one has the key's attributes
    have hne : item ≠ [] := by
      obtain ⟨e, he⟩ := List.exists_mem_of_ne_nil _ hkey.ne_nil
      have hget : Entries.get? e.1 stored = some e.2 := hkey.get?_merge fields he
      intro hnil
      rw [List.map_eq_nil_iff.mp hnil] at hget
      cases hget
    refine ⟨writes_of_keyedItem hkeyed nofun, addresses_of_requireKey hrequire,
      get?_key hkey fields,
      fun projection l reply hreply hheld => get_eq hrequire projection hreply hheld hne hplain,
      fun p hp hbuffer hx l request reply hrequest hreply before after es es' hitems hbefore
        hafter => ?_⟩
    exact pulls_page hp hbuffer hx hrequest hreply hitems hbefore (hkey.ofItem_merge hread hwkey)
      hafter
  · next hw =>
    rw [if_neg hw] at hkeyed
    exact fun options hnames => put_of_error hkeyed hnames

/-! ## One track -/

def tracksTable : Table :=
  { gateway := ⟨default, "tracks"⟩
    schema := { hashKey := some "artist", hashType := some .text
                rangeKey := some "year", rangeType := some .number } }

/-- A value with an attribute named as one of the key's. -/
def trackFields : Params :=
  [("year", .text "?"), ("tags", .list [.text "live", .text "mono"]),
    ("credits", .record [("takes", .list [.int 3, .bool true, .null])])]

def trackItem : Item :=
  [("year", .n "1970"), ("tags", .ss ["live", "mono"]),
    ("credits", .m [("takes", .l [.n "3", .bool true, .null])]), ("artist", .s "Can")]

/-- The value as it is read back. -/
def storedTrack : Value :=
  .record [("year", .int 1970), ("tags", .list [.text "live", .text "mono"]),
    ("credits", .record [("takes", .list [.int 3, .bool true, .null])]), ("artist", .text "Can")]

/-- The value as the entry of a page. -/
def trackEntry : Entry :=
  { key := [.text "Can", .int 1970]
    value := [("tags", .list [.text "live", .text "mono"]),
      ("credits", .record [("takes", .list [.int 3, .bool true, .null])])] }

/-- The page holds an item without attributes before the track. -/
theorem put_recovered_track :
    tracksTable.schema.HasKey (.text "Can") (.int 1970)
        [("artist", .text "Can"), ("year", .int 1970)] ∧
      (Value.record trackFields).isRecoverable tracksTable.decimalNumbers = true ∧
      tracksTable.Writes (.text "Can") (.int 1970) (.record trackFields) trackItem ∧
      tracksTable.Addresses (.text "Can") (.int 1970) [("artist", .s "Can"), ("year", .n "1970")] ∧
      (tracksTable.get (.text "Can") (.int 1970) .null
        { replies := [.ok (.record [("Item", trackItem.toValue)])] }).1 = .ok storedTrack ∧
      ∃ p, tracksTable.scan (.text "") .null .null [] = .ok p ∧
        (Pages.pulls (tracksTable.gateway.pageSource .scan) 2 p
          { replies := [.ok (.record [("Items", .list [.map [], trackItem.toValue])])] }).1 =
          [some {}, some trackEntry] := by
  have hkey : tracksTable.schema.HasKey (.text "Can") (.int 1970)
      [("artist", .text "Can"), ("year", .int 1970)] :=
    .ranged rfl rfl (by decide) (.text "Can") (.number 1970)
  have hfields : (Value.record trackFields).isRecoverable tracksTable.decimalNumbers = true := by
    decide
  have hw : ((Value.record [("artist", .text "Can"), ("year", .int 1970)]).isWritable &&
      (Value.record trackFields).isWritable) = true := by decide +kernel
  have hput := tracksTable.put_recovered hkey hfields
  dsimp only at hput
  rw [if_pos hw] at hput
  obtain ⟨hwrites, haddresses, -, hrecovers⟩ := hput
  have hitem : Item.ofParams (Entries.merge trackFields
      [("artist", .text "Can"), ("year", .int 1970)]) = trackItem := by
    with_unfolding_all rfl
  have hname : Item.ofParams [("artist", .text "Can"), ("year", .int 1970)] =
      [("artist", .s "Can"), ("year", .n "1970")] := by
    with_unfolding_all rfl
  rw [hitem] at hwrites hrecovers
  rw [hname] at haddresses
  obtain ⟨p, hp⟩ : ∃ p, tracksTable.scan (.text "") .null .null [] = .ok p := ⟨_, rfl⟩
  refine ⟨hkey, hfields, hwrites, haddresses, hrecovers.get .null _ _ rfl rfl, p, hp, ?_⟩
  have hpage := hrecovers.page p (.scan hp)
  cases hp
  exact hpage rfl rfl _ _ _ rfl rfl [.map []] [] [{}] [] rfl rfl rfl

end Table

end ItemStore
