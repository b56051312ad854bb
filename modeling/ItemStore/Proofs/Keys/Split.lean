import ItemStore.Keys.Key
import ItemStore.Pages.Entry
import ItemStore.Proofs.Wire.Records
import Mathlib.Data.List.Basic

/-
  Keys written and taken out again. Key values are written under the types that a table declares
  and attributes by the shape of their values, but for values of the declared kinds the two are the
  same (`KeyType.Takes.wire_eq`), so the key of an item is the item of its key fields (`key_eq`).

  Taking names out of the item of a record gives the values that it has under them, in the order of
  the names, and leaves its other fields in their order (`takeKeys_sentEntries`). With the names of
  the schema that is the entry of an item in a page (`ofItem_ofParams`).
-/

namespace ItemStore

/-- The values of the kind that a key type declares. -/
inductive KeyType.Takes : KeyType → Value → Prop
  | text (s : String) : Takes .text (.text s)
  | number (n : Int) : Takes .number (.int n)
  | binary (data : List UInt8) : Takes .binary (.bytes .fixed data)

namespace KeyType.Takes

variable {t : KeyType} {v : Value}

/-- Under its key type a value is written as it is under its shape, if it is writable. -/
theorem wire_eq (h : t.Takes v) :
    t.wire v = if v.isWritable then .ok v.wireForm else .error (.fault .badValue) := by
  cases h with
  | number n =>
    rw [KeyType.wire, Value.toText]
    cases (Value.int n).isWritable <;> rfl
  | _ => rfl

theorem isRecoverable (h : t.Takes v) (decimalNumbers : Bool) :
    v.isRecoverable decimalNumbers = true := by
  cases h <;> cases decimalNumbers <;> rfl

end KeyType.Takes

namespace Schema

/-- The key fields of a schema with the given values: the hash value, and the range value where the
schema has a range attribute, each of the kind that the schema declares. A schema without a range
attribute takes any range value and leaves it out. -/
inductive HasKey (s : Schema) (hash range : Value) : Params → Prop
  | hashOnly {hashName : String} {hashType : KeyType}
      (hash?_eq : s.hash? = some (hashName, hashType)) (noRange : named? s.rangeKey = none)
      (takes : hashType.Takes hash) : HasKey s hash range [(hashName, hash)]
  | ranged {hashName rangeName : String} {hashType rangeType : KeyType}
      (hash?_eq : s.hash? = some (hashName, hashType))
      (range?_eq : s.range? = some (rangeName, rangeType)) (names_ne : rangeName ≠ hashName)
      (takes : hashType.Takes hash) (takes' : rangeType.Takes range) :
      HasKey s hash range [(hashName, hash), (rangeName, range)]

theorem named?_of_attribute? {name : Option String} {type : Option KeyType} {n : String}
    {t : KeyType} (h : attribute? name type = some (n, t)) : named? name = some n := by
  unfold attribute? at h
  cases hn : named? name with
  | none =>
    rw [hn] at h
    cases h
  | some n' =>
    cases type with
    | none =>
      rw [hn] at h
      cases h
    | some t' =>
      rw [hn] at h
      cases h
      rfl

theorem attribute?_of_named? {name : Option String} (h : named? name = none)
    (type : Option KeyType) : attribute? name type = none := by
  unfold attribute?
  rw [h]

namespace HasKey

variable {s : Schema} {hash range : Value} {keyFields : Params}

/-- The key is the item of the key fields, if they are writable. -/
theorem key_eq (h : s.HasKey hash range keyFields) : s.key hash range =
    if (Value.record keyFields).isWritable then .ok (Item.ofParams keyFields)
    else .error (.fault .badValue) := by
  cases h with
  | hashOnly hash?_eq noRange takes =>
    have hrange : s.range? = none := attribute?_of_named? noRange _
    rw [key, hash?_eq]
    dsimp only
    rw [takes.wire_eq, hrange]
    show _ = if (true && hash.isWritable && true) then _ else _
    cases hash.isWritable with
    | false => rfl
    | true => cases range <;> rfl
  | @ranged hashName rangeName hashType rangeType hash?_eq range?_eq names_ne takes takes' =>
    -- a range value of a declared kind is not null, so it is not passed over
    have hkey : s.key hash range = (hashType.wire hash >>= fun w =>
        (rangeType.wire range).map fun w' => Entries.insert rangeName w' [(hashName, w)]) := by
      rw [key, hash?_eq]
      dsimp only
      rw [range?_eq]
      cases takes' <;> rfl
    rw [hkey, takes.wire_eq, takes'.wire_eq]
    show _ = if (true && hash.isWritable && (true && range.isWritable && true)) then _ else _
    cases hash.isWritable with
    | false => rfl
    | true =>
      cases range.isWritable with
      | false => rfl
      | true =>
        show Except.ok (Entries.insert rangeName range.wireForm [(hashName, hash.wireForm)]) = _
        rw [Entries.insert, if_neg (mt beq_iff_eq.mp names_ne.symm), Entries.insert]
        rfl

theorem keyNames_eq (h : s.HasKey hash range keyFields) :
    s.keyNames = keyFields.map Prod.fst := by
  cases h with
  | hashOnly hash?_eq noRange takes =>
    rw [keyNames, named?_of_attribute? hash?_eq, noRange]
    rfl
  | ranged hash?_eq range?_eq names_ne takes takes' =>
    rw [keyNames, named?_of_attribute? hash?_eq, named?_of_attribute? range?_eq]
    rfl

theorem nodup (h : s.HasKey hash range keyFields) : (keyFields.map Prod.fst).Nodup := by
  cases h with
  | hashOnly => exact List.pairwise_singleton _ _
  | ranged _ _ names_ne => simpa using names_ne.symm

theorem ne_nil (h : s.HasKey hash range keyFields) : keyFields ≠ [] := by
  cases h <;> exact List.cons_ne_nil _ _

/-- Key values are read back if they are writable. -/
theorem isReadable (h : s.HasKey hash range keyFields)
    (hw : (Value.record keyFields).isWritable = true) (decimalNumbers : Bool) :
    (Value.record keyFields).isReadable decimalNumbers = true := by
  refine Value.isReadable_of_isRecoverable (Value.isMadeOf_record.mpr ⟨h.nodup, ?_⟩) hw
  cases h with
  | hashOnly _ _ takes => exact List.forall_mem_singleton.mpr (takes.isRecoverable decimalNumbers)
  | ranged _ _ _ takes takes' =>
    exact List.forall_mem_cons.mpr ⟨takes.isRecoverable decimalNumbers,
      List.forall_mem_singleton.mpr (takes'.isRecoverable decimalNumbers)⟩

end HasKey

/-! ## Key attributes taken out -/

open Value

variable {decimalNumbers : Bool}

/-- Names taken out of fields: what is read of those that are there, in the order of the names, and
the other fields as they are. -/
theorem takeKeys_of_isRead {names : List String} (hnames : names.Nodup) {fields all : Params}
    (hnodup : (fields.map Prod.fst).Nodup) (hread : IsRead decimalNumbers fields all) :
    takeKeys decimalNumbers names (fields.map (Prod.map .text id)) =
      .ok (names.filterMap fun name => Entries.get? name all,
        (fields.filter fun e => !names.contains e.1).map (Prod.map .text id)) := by
  induction names generalizing fields all with
  | nil =>
    have hkept : fields.filter (fun e => !([] : List String).contains e.1) = fields :=
      List.filter_eq_self.mpr fun _ _ => rfl
    rw [hkept]
    rfl
  | cons name names ih =>
    -- the other names are looked up after this one is taken out, which they do not notice
    rw [List.nodup_cons] at hnames
    have hrest : (Entries.erase name fields).filter (fun e => !names.contains e.1) =
        fields.filter fun e => !(name :: names).contains e.1 := by
      rw [Entries.erase_eq_filter hnodup, List.filter_filter]
      refine List.filter_congr fun e _ => ?_
      rw [List.contains_cons, Bool.not_or, Bool.and_comm]
      rfl
    have hvalues : (names.filterMap fun n => Entries.get? n (Entries.erase name all)) =
        names.filterMap fun n => Entries.get? n all := by
      refine List.filterMap_congr fun n hn => ?_
      have hne : name ≠ n := fun he => hnames.1 (he.symm ▸ hn)
      rw [Entries.get?_erase_of_ne hne]
    have hlater := ih hnames.2 (Entries.nodup_erase hnodup) (hread.erase name)
    rw [hrest, hvalues] at hlater
    rw [takeKeys, Entries.get?_map text_beq, List.filterMap_cons]
    rcases hread.get?_cases name with ⟨hnone, hnone'⟩ | ⟨w, v, hw, hv, hfrom⟩
    · rw [hnone, hnone']
      rw [Entries.erase_of_get?_eq_none hnone] at hlater
      exact hlater
    · rw [hw, hv]
      dsimp only [Option.map_some, id]
      rw [hfrom, Entries.erase_map text_beq]
      show (takeKeys decimalNumbers names ((Entries.erase name fields).map _) >>= fun p =>
        pure (v :: p.1, p.2)) = _
      rw [hlater]
      rfl

/-- Names taken out of the item of a record: the values under those that it has, in the order of
the names, and its other fields. -/
theorem takeKeys_sentEntries {names : List String} (hnames : names.Nodup) {fields : Params}
    (hnodup : (fields.map Prod.fst).Nodup)
    (hread : ∀ e ∈ fields, e.2.isReadable decimalNumbers = true) :
    takeKeys decimalNumbers names (sentEntries fields) =
      .ok (names.filterMap fun name => (Entries.get? name fields).map (readBack decimalNumbers),
        sentEntries (fields.filter fun e => !names.contains e.1)) := by
  have hnodup' : ((fields.map (Prod.map id fun v => v.wireForm.toValue)).map Prod.fst).Nodup := by
    rw [List.map_map]
    exact hnodup
  have hvalues : ∀ name, Entries.get? name (fields.map (Prod.map id (readBack decimalNumbers))) =
      (Entries.get? name fields).map (readBack decimalNumbers) :=
    fun name => Entries.get?_map (fun _ _ => rfl) _ name fields
  rw [sentEntries_eq, takeKeys_of_isRead hnames hnodup' (isRead_sent hread), List.filter_map,
    sentEntries_eq]
  simp only [hvalues]
  rfl

/-! ## Items as entries -/

/-- Text fields are a map as they are. -/
theorem mapping_record {fields : Params} (h : (fields.map Prod.fst).Nodup) :
    Field.mapping Field.anything (.map (fields.map (Prod.map .text id))) = .taken fields := by
  have hpairs : ((fields.map (Prod.map Value.text id)).map fun (e : Value × Value) =>
      Prod.mk <$> ((Field.text e.1).under (.text "[key]")).under (Field.step e.1) <*>
        (Field.anything e.2).under (Field.step e.1)).foldr
      (fun p rest => List.cons <$> p <*> rest) (.taken []) = Checked.taken fields := by
    clear h
    induction fields with
    | nil => rfl
    | cons e fields ih =>
      rw [List.map_cons, List.map_cons, List.foldr_cons, ih]
      rfl
  show Entries.ofPairs <$> List.foldr _ _ _ = _
  rw [hpairs]
  show Checked.taken (Entries.ofPairs fields) = _
  rw [Entries.ofPairs_of_nodup h]

theorem ofFields_record (key : List Value) {fields : Params} (h : (fields.map Prod.fst).Nodup) :
    Entry.ofFields [("key", .list key), ("value", .map (fields.map (Prod.map .text id)))] none =
      .ok { key, value := fields } := by
  have hvalue : fieldOr [("key", .list key), ("value", .map (fields.map (Prod.map .text id)))]
      "value" [] (Field.mapping Field.anything) = .taken fields := by
    show (Field.mapping Field.anything (.map (fields.map (Prod.map .text id)))).under _ = _
    rw [mapping_record h]
    rfl
  unfold Entry.ofFields
  rw [hvalue]
  rfl

/-- The item of a record as an entry: the values that the record has under the key names, and its
other fields. -/
theorem ofItem_ofParams {s : Schema} (hnames : s.keyNames.Nodup) {fields : Params}
    (h : (record fields).isReadable decimalNumbers = true) :
    Entry.ofItem s decimalNumbers (Item.ofParams fields).toValue =
      .ok { key := s.keyNames.filterMap fun name =>
              (Entries.get? name fields).map (readBack decimalNumbers)
            value := (fields.filter fun e => !s.keyNames.contains e.1).map
              (Prod.map id (readBack decimalNumbers)) } := by
  obtain ⟨hnodup, hread⟩ := isReadable_record.mp h
  have hrest : ∀ e ∈ fields.filter fun e => !s.keyNames.contains e.1,
      e.2.isReadable decimalNumbers = true :=
    fun e he => hread e (List.mem_of_mem_filter he)
  have hsplit : s.split (Item.ofParams fields).toValue decimalNumbers =
      .ok (s.keyNames.filterMap fun name =>
          (Entries.get? name fields).map (readBack decimalNumbers),
        (fields.filter fun e => !s.keyNames.contains e.1).map
          (Prod.map .text (readBack decimalNumbers))) := by
    rw [toValue_ofParams]
    show (takeKeys decimalNumbers s.keyNames (sentEntries fields) >>= fun p =>
      fromWireFields decimalNumbers p.2 >>= fun rest => pure (p.1, rest)) = _
    rw [takeKeys_sentEntries hnames hnodup hread]
    show (fromWireFields decimalNumbers (sentEntries (fields.filter _)) >>= fun rest =>
      pure (_, rest)) = _
    rw [fromWireFields_sentEntries hrest]
    rfl
  have hkept : (((fields.filter fun e => !s.keyNames.contains e.1).map
      (Prod.map id (readBack decimalNumbers))).map Prod.fst).Nodup := by
    rw [List.map_map]
    exact hnodup.sublist (List.filter_sublist.map Prod.fst)
  rw [← ofFields_record _ hkept, Entry.ofItem, hsplit, List.map_map]
  rfl

/-! ## Items under a key -/

namespace HasKey

variable {s : Schema} {hash range : Value} {keyFields : Params}

/-- Key fields take the place of those of the same name. -/
theorem get?_merge (h : s.HasKey hash range keyFields) (fields : Params) {e : String × Value}
    (he : e ∈ keyFields) : Entries.get? e.1 (Entries.merge fields keyFields) = some e.2 := by
  rw [Entries.get?_merge_of_nodup h.nodup,
    Entries.get?_of_mem (Entries.sole_of_lawful e.1) h.nodup he]
  rfl

/-- The item of a record with key fields put into it, as an entry: the key values, and the fields
of the record that are not named as the key's. -/
theorem ofItem_merge (h : s.HasKey hash range keyFields) {fields : Params}
    (hfields : (record fields).isReadable decimalNumbers = true)
    (hw : (record keyFields).isWritable = true) :
    Entry.ofItem s decimalNumbers (Item.ofParams (Entries.merge fields keyFields)).toValue =
      .ok { key := keyFields.map fun e => e.2.readBack decimalNumbers
            value := (fields.filter fun e => !s.keyNames.contains e.1).map
              (Prod.map id (readBack decimalNumbers)) } := by
  have hnames : s.keyNames.Nodup := h.keyNames_eq ▸ h.nodup
  have hkey : (s.keyNames.filterMap fun name => (Entries.get? name
      (Entries.merge fields keyFields)).map (readBack decimalNumbers)) =
        keyFields.map fun e => e.2.readBack decimalNumbers := by
    rw [h.keyNames_eq, List.filterMap_map, ← List.filterMap_eq_map]
    refine List.filterMap_congr fun e he => ?_
    rw [Function.comp_apply, h.get?_merge fields he]
    rfl
  have hrest : (Entries.merge fields keyFields).filter (fun e => !s.keyNames.contains e.1) =
      fields.filter fun e => !s.keyNames.contains e.1 := by
    refine Entries.filter_merge (fun e he v => ?_) fields
    have hmem : e.1 ∈ s.keyNames := h.keyNames_eq ▸ List.mem_map_of_mem he
    show (!s.keyNames.contains e.1) = false
    rw [List.contains_iff_mem.mpr hmem]
    rfl
  have hreadable := isReadable_merge hfields (h.isReadable hw decimalNumbers)
  rw [ofItem_ofParams hnames hreadable, hkey, hrest]

end HasKey

end Schema

end ItemStore
