import ItemStore.Proofs.Table.Keyed

/-
  Keys without a range value. Where a table has a range attribute, an operation on items by key that
  is given a key without a range value fails with one failure, which names the attribute, before
  anything is sent (`run_eq_rangeMissing`). In a batch this may be the key of any entry: the entries
  around it are taken or fail alike (`mapM_eq_error`).

  What is proved asks that the hash value can be written under its type. Nothing asks that there is
  one: null as a hash value is written as text, and the key is sent
  (`not_run_eq_error_of_nullHash`).
-/

namespace ItemStore

open Exchange

/-- If each outcome of a list is taken or fails in one way, and some fail, the list fails so. -/
theorem mapM_eq_error {f : α → Outcome β} {xs : List α} {e : Failure}
    (h : ∀ x ∈ xs, f x = .error e ∨ ∃ y, f x = .ok y) (hsome : ∃ x ∈ xs, f x = .error e) :
    xs.mapM f = .error e := by
  rcases mapM_cases f xs with ⟨ys, -, hall⟩ | ⟨before, x, after, e', rfl, -, hx, hall⟩
  · obtain ⟨x, hx, he⟩ := hsome
    obtain ⟨y, hy⟩ := exists_of_mapM hall hx
    rw [he] at hy
    cases hy
  · rcases h x (List.mem_append_right _ List.mem_cons_self) with he | ⟨y, hy⟩
    · rw [hx] at he
      cases he
      exact hall
    · rw [hx] at hy
      cases hy

namespace KeyedOperation

/-- Arguments of the form that an operation takes, whatever their keys are. -/
def IsFormed : KeyedOperation → Prop
  | .put _ _ _ options _ => Entries.hasAny Table.putNames options = false
  | .batchWrite entries => ∃ es, entries.elements = .ok es ∧
      ∀ entry ∈ es, ∃ hash range value, entry.elements = .ok [hash, range, value] ∧
        (value = .null ∨ ∃ attributes, value.toItem = .ok attributes)
  | .batchRead entries _ => ∃ es, entries.elements = .ok es ∧
      ∀ entry ∈ es, ∃ hash range, entry.elements = .ok [hash, range]
  | _ => True

theorem mem_keysOf {entries : Value} {es : List Value} (h : entries.elements = .ok es)
    {p : Value × Value} : p ∈ keysOf entries ↔ ∃ entry ∈ es, keyOf? entry = some p := by
  rw [keysOf, h]
  exact List.mem_filterMap

theorem keyOf?_of_elements {entry hash range : Value} {rest : List Value}
    (h : entry.elements = .ok (hash :: range :: rest)) : keyOf? entry = some (hash, range) := by
  rw [keyOf?, h]

end KeyedOperation

namespace Table

variable {t : Table} {hash range value : Value} {rangeName : String}

/-- A key that can be written is required to have a range value, where there is a range attribute,
and nothing else. -/
theorem requireKey_cases (hready : t.schema.isReady)
    (hrange : Schema.named? t.schema.rangeKey = some rangeName)
    (hwritten : ∃ key, t.schema.key hash range = .ok key) :
    (range = .null ∧ t.requireKey hash range = .error (t.rangeMissing rangeName)) ∨
      (range ≠ .null ∧ ∃ key, t.requireKey hash range = .ok key) := by
  obtain ⟨key, hkey⟩ := hwritten
  have hempty : key.isEmpty = false := by rw [Schema.isEmpty_of_key hkey, hready, Bool.not_true]
  unfold requireKey
  rw [hkey, hrange]
  show _ ∧ (if key.isEmpty then _ else _) = _ ∨ _ ∧ ∃ key', (if key.isEmpty then _ else _) = _
  rw [hempty]
  cases range with
  | null => exact .inl ⟨rfl, rfl⟩
  | _ => exact .inr ⟨Value.noConfusion, key, rfl⟩

theorem keyedItem_of_error {e : Failure} (h : t.requireKey hash range = .error e) (value : Value) :
    t.keyedItem hash range value = .error e := by
  unfold keyedItem
  rw [h]
  rfl

/-- An entry of a batch of writes is taken, or refused as its range value is missing. -/
theorem writeRequest_cases (hready : t.schema.isReady)
    (hrange : Schema.named? t.schema.rangeKey = some rangeName) {entry : Value}
    (helements : entry.elements = .ok [hash, range, value])
    (hvalue : value = .null ∨ ∃ attributes, value.toItem = .ok attributes)
    (hwritten : ∃ key, t.schema.key hash range = .ok key) :
    (range = .null ∧ t.writeRequest entry = .error (t.rangeMissing rangeName)) ∨
      (range ≠ .null ∧ ∃ write, t.writeRequest entry = .ok write) := by
  by_cases hnull : value = .null
  · subst hnull
    rw [writeRequest_null helements]
    rcases requireKey_cases hready hrange hwritten with ⟨he, hkey⟩ | ⟨hne, key, hkey⟩
    · rw [hkey]
      exact .inl ⟨he, rfl⟩
    · rw [hkey]
      exact .inr ⟨hne, _, rfl⟩
  · obtain ⟨attributes, hattributes⟩ := hvalue.resolve_left hnull
    rw [writeRequest_of_ne_null helements hnull]
    rcases requireKey_cases hready hrange hwritten with ⟨he, hkey⟩ | ⟨hne, key, hkey⟩
    · rw [keyedItem_of_error hkey]
      exact .inl ⟨he, rfl⟩
    · refine .inr ⟨hne, putRequest (Entries.merge attributes key), ?_⟩
      unfold keyedItem
      rw [hkey, hattributes]
      rfl

theorem readKey_cases (hready : t.schema.isReady)
    (hrange : Schema.named? t.schema.rangeKey = some rangeName) {entry : Value}
    (helements : entry.elements = .ok [hash, range])
    (hwritten : ∃ key, t.schema.key hash range = .ok key) :
    (range = .null ∧ t.readKey entry = .error (t.rangeMissing rangeName)) ∨
      (range ≠ .null ∧ ∃ v, t.readKey entry = .ok v) := by
  rw [readKey_of_elements helements]
  rcases requireKey_cases hready hrange hwritten with ⟨he, hkey⟩ | ⟨hne, key, hkey⟩
  · rw [hkey]
    exact .inl ⟨he, rfl⟩
  · rw [hkey]
    exact .inr ⟨hne, _, rfl⟩

/-- A batch whose entries are taken unless their range values are missing is refused if one is. -/
theorem mapM_eq_rangeMissing {f : Value → Outcome Value} {entries : Value} {es : List Value}
    (helements : entries.elements = .ok es)
    (h : ∀ entry ∈ es, ∃ hash range, KeyedOperation.keyOf? entry = some (hash, range) ∧
      ((range = .null ∧ f entry = .error (t.rangeMissing rangeName)) ∨
        (range ≠ .null ∧ ∃ v, f entry = .ok v)))
    (hnull : ∃ p ∈ KeyedOperation.keysOf entries, p.2 = .null) :
    es.mapM f = .error (t.rangeMissing rangeName) := by
  refine mapM_eq_error (fun entry hentry => ?_) ?_
  · obtain ⟨hash, range, -, ⟨-, he⟩ | ⟨-, hv⟩⟩ := h entry hentry
    · exact .inl he
    · exact .inr hv
  · obtain ⟨p, hp, hpnull⟩ := hnull
    obtain ⟨entry, hentry, hkey⟩ := (KeyedOperation.mem_keysOf helements).mp hp
    obtain ⟨hash, range, hkey', hcases⟩ := h entry hentry
    rw [hkey] at hkey'
    cases hkey'
    exact ⟨entry, hentry, (hcases.resolve_right fun hne => hne.1 hpnull).2⟩

theorem writeRequests_eq_rangeMissing (hready : t.schema.isReady)
    (hrange : Schema.named? t.schema.rangeKey = some rangeName) {entries : Value}
    (hformed : (KeyedOperation.batchWrite entries).IsFormed)
    (hwritten : ∀ p ∈ KeyedOperation.keysOf entries, ∃ key, t.schema.key p.1 p.2 = .ok key)
    (hnull : ∃ p ∈ KeyedOperation.keysOf entries, p.2 = .null) :
    t.writeRequests entries = .error (t.rangeMissing rangeName) := by
  obtain ⟨es, helements, hentries⟩ := hformed
  unfold writeRequests
  rw [helements]
  refine mapM_eq_rangeMissing helements (fun entry hentry => ?_) hnull
  obtain ⟨hash, range, value, hparts, hvalue⟩ := hentries entry hentry
  have hkey := KeyedOperation.keyOf?_of_elements hparts
  have hmem := (KeyedOperation.mem_keysOf helements).mpr ⟨entry, hentry, hkey⟩
  exact ⟨hash, range, hkey, writeRequest_cases hready hrange hparts hvalue (hwritten _ hmem)⟩

theorem readKeys_eq_rangeMissing (hready : t.schema.isReady)
    (hrange : Schema.named? t.schema.rangeKey = some rangeName) {entries projection : Value}
    (hformed : (KeyedOperation.batchRead entries projection).IsFormed)
    (hwritten : ∀ p ∈ KeyedOperation.keysOf entries, ∃ key, t.schema.key p.1 p.2 = .ok key)
    (hnull : ∃ p ∈ KeyedOperation.keysOf entries, p.2 = .null) :
    t.readKeys entries = .error (t.rangeMissing rangeName) := by
  obtain ⟨es, helements, hentries⟩ := hformed
  unfold readKeys
  rw [helements]
  refine mapM_eq_rangeMissing helements (fun entry hentry => ?_) hnull
  obtain ⟨hash, range, hparts⟩ := hentries entry hentry
  have hkey := KeyedOperation.keyOf?_of_elements hparts
  have hmem := (KeyedOperation.mem_keysOf helements).mpr ⟨entry, hentry, hkey⟩
  exact ⟨hash, range, hkey, readKey_cases hready hrange hparts (hwritten _ hmem)⟩

/-- An operation on items by key fails before anything is sent if a range value is missing that the
table asks for, whatever the other keys and arguments are. -/
theorem run_eq_rangeMissing (hready : t.schema.isReady)
    (hrange : Schema.named? t.schema.rangeKey = some rangeName) {op : KeyedOperation}
    (hformed : op.IsFormed) (hwritten : ∀ p ∈ op.keys, ∃ key, t.schema.key p.1 p.2 = .ok key)
    (hnull : ∃ p ∈ op.keys, p.2 = .null) :
    op.run t = done (.error (t.rangeMissing rangeName)) := by
  -- with one key it is that key, and the other way is closed
  have hone : ∀ {hash range : Value}, op.keys = [(hash, range)] →
      t.requireKey hash range = .error (t.rangeMissing rangeName) := by
    intro hash range hkeys
    rw [hkeys] at hwritten hnull
    have hrangeNull : range = .null := by
      obtain ⟨p, hp, hpnull⟩ := hnull
      rw [List.mem_singleton.mp hp] at hpnull
      exact hpnull
    have hcases := requireKey_cases hready hrange (hwritten _ List.mem_cons_self)
    exact (hcases.resolve_right fun hne => hne.1 hrangeNull).2
  cases op with
  | get hash range projection => exact get_of_error (hone rfl) projection
  | put hash range value options noItem =>
    show KeyedOperation.withoutAnswer (t.put hash range value options) = _
    rw [put_of_error (keyedItem_of_error (hone rfl) value) hformed]
    rfl
  | putNew hash range value =>
    show KeyedOperation.withoutAnswer (t.putNew hash range value) = _
    rw [putNew_of_error (keyedItem_of_error (hone rfl) value)]
    rfl
  | update hash range source condition =>
    exact update_of_error (hone rfl) source condition
  | delete hash range =>
    show KeyedOperation.withoutAnswer (t.delete hash range) = _
    rw [delete_of_error (hone rfl)]
    rfl
  | batchWrite entries =>
    show KeyedOperation.withoutAnswer (t.batchWrite entries) = _
    rw [batchWrite_of_error
      (writeRequests_eq_rangeMissing hready hrange hformed hwritten hnull)]
    rfl
  | batchRead entries projection =>
    exact batchRead_of_error
      (readKeys_eq_rangeMissing hready hrange hformed hwritten hnull) projection

/-- Three reads in one batch, the second without a range value. -/
def readsOfTenants : KeyedOperation :=
  .batchRead (.list [.seq .tuple [.text "a", .int 1], .seq .tuple [.text "b", .null],
    .seq .tuple [.text "c", .int 3]]) .null

theorem run_readsOfTenants : eventLog.schema.isReady ∧
    Schema.named? eventLog.schema.rangeKey = some "ts" ∧ readsOfTenants.IsFormed ∧
    (∀ p ∈ readsOfTenants.keys, ∃ key, eventLog.schema.key p.1 p.2 = .ok key) ∧
    (∃ p ∈ readsOfTenants.keys, p.2 = .null) ∧
    readsOfTenants.run eventLog = done (.error (eventLog.rangeMissing "ts")) := by
  have hready : eventLog.schema.isReady := rfl
  have hrange : Schema.named? eventLog.schema.rangeKey = some "ts" := rfl
  have hformed : readsOfTenants.IsFormed := by
    refine ⟨_, rfl, fun entry hentry => ?_⟩
    simp only [List.mem_cons, List.not_mem_nil, or_false] at hentry
    rcases hentry with rfl | rfl | rfl <;> exact ⟨_, _, rfl⟩
  have hkeys : readsOfTenants.keys =
      [(.text "a", .int 1), (.text "b", .null), (.text "c", .int 3)] := rfl
  have hwritten : ∀ p ∈ readsOfTenants.keys, ∃ key, eventLog.schema.key p.1 p.2 = .ok key := by
    rw [hkeys]
    intro p hp
    simp only [List.mem_cons, List.not_mem_nil, or_false] at hp
    rcases hp with rfl | rfl | rfl
    · exact ⟨[("tenant", .s "a"), ("ts", .n "1")], by with_unfolding_all rfl⟩
    · exact ⟨[("tenant", .s "b")], by with_unfolding_all rfl⟩
    · exact ⟨[("tenant", .s "c"), ("ts", .n "3")], by with_unfolding_all rfl⟩
  have hnull : ∃ p ∈ readsOfTenants.keys, p.2 = .null :=
    ⟨(.text "b", .null), List.mem_cons_of_mem _ List.mem_cons_self, rfl⟩
  exact ⟨hready, hrange, hformed, hwritten, hnull,
    run_eq_rangeMissing hready hrange hformed hwritten hnull⟩

/-! ## Hash values -/

/-- A hash value that is null is not refused: where the table declares a text, the key has a text
for it. -/
theorem requireKey_nullHash {hashName : String}
    (hhash : t.schema.hash? = some (hashName, .text))
    (hrange : Schema.named? t.schema.rangeKey = none) (range : Value) :
    t.requireKey .null range = .ok [(hashName, .s "None")] := by
  have hkey : t.schema.key .null range = .ok [(hashName, .s "None")] := by
    rw [Schema.key, hhash, Schema.range?, Schema.attribute?_of_named? hrange]
    cases range <;> rfl
  unfold requireKey
  rw [hkey, hrange]
  rfl

/-- A delete without a hash value deletes the item under that text. -/
theorem not_run_eq_error_of_nullHash :
    let op : KeyedOperation := .delete .null .null
    eventsTable.schema.isReady ∧ op.IsFormed ∧ (∃ p ∈ op.keys, p.1 = .null) ∧
      Sends (op.run eventsTable) ⟨.deleteItem, [("TableName", .text "events"),
        ("Key", .record [("id", .record [("S", .text "None")])])]⟩ ∧
      ¬∃ e, op.run eventsTable = done (.error e) := by
  intro op
  have hkey : eventsTable.requireKey .null .null = .ok [("id", .s "None")] :=
    requireKey_nullHash rfl rfl .null
  have hsends : Sends (op.run eventsTable) ⟨.deleteItem, [("TableName", .text "events"),
      ("Key", .record [("id", .record [("S", .text "None")])])]⟩ :=
    (delete_sends hkey).andThen fun _ => quiet_done _
  refine ⟨rfl, trivial, ⟨_, List.mem_cons_self, rfl⟩, hsends, ?_⟩
  rintro ⟨e, he⟩
  have hsent := hsends {}
  rw [he] at hsent
  cases hsent

end Table

end ItemStore
