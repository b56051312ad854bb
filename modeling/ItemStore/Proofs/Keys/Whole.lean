import ItemStore.Proofs.Keys.Split

/-
  Whole keys. A key is whole if it has the key attributes of its schema and no others, each under a
  type that the schema declares for it (`Schema.IsKey`); an item has a whole key in it if it has the
  key attributes in the same way (`Schema.Keyed`).

  Not every key that a schema builds is whole. Its attributes are those whose name and type are
  known, and a range attribute without a type is left out like one that is not there. So what is
  proved asks that a ready schema knows the type of its range attribute (`Schema.IsTyped`): then a
  key with a range value, where there is a range attribute, is whole (`isKey_of_key`).
-/

namespace ItemStore

/-- The tag of a wire value. -/
def Wire.tag : Wire → Tag
  | .s _ => .s
  | .n _ => .n
  | .bool _ => .bool
  | .null => .null
  | .b _ => .b
  | .m _ => .m
  | .l _ => .l
  | .ss _ => .ss
  | .ns _ => .ns
  | .bs _ => .bs

/-- Why a key type does not take a value: it makes no bytes for a binary attribute, or it has an
integer with too many digits to be written for one of the others. -/
inductive KeyType.Refuses : KeyType → Value → Fault → Prop
  | noBytes {v : Value} {f : Fault} (toBytes_eq : v.toBytes = .error f) : Refuses .binary v f
  | noText {t : KeyType} {v : Value} (ne_binary : t ≠ .binary)
      (unwritable : v.isWritable = false) : Refuses t v .badValue

/-- Whatever the value, it is written under the tag of the key type, or refused. -/
theorem KeyType.wire_cases (t : KeyType) (v : Value) :
    (∃ w, t.wire v = .ok w ∧ w.tag = t.tag) ∨
      ∃ f, t.Refuses v f ∧ t.wire v = .error (.fault f) := by
  unfold KeyType.wire
  split
  · rw [Value.toText]
    cases hw : v.isWritable with
    | true => exact .inl ⟨_, rfl, rfl⟩
    | false => exact .inr ⟨_, .noText nofun hw, rfl⟩
  · rw [Value.toText]
    cases hw : v.isWritable with
    | true => exact .inl ⟨_, rfl, rfl⟩
    | false => exact .inr ⟨_, .noText nofun hw, rfl⟩
  · exact .inl ⟨_, rfl, rfl⟩
  · cases hv : v.toBytes with
    | error f => exact .inr ⟨f, .noBytes hv, rfl⟩
    | ok data => exact .inl ⟨_, rfl, rfl⟩

theorem KeyType.tag_of_wire {t : KeyType} {v : Value} {w : Wire} (h : t.wire v = .ok w) :
    w.tag = t.tag := by
  rcases t.wire_cases v with ⟨w', hw, htag⟩ | ⟨f, -, he⟩
  · rw [h] at hw
    cases hw
    exact htag
  · rw [h] at he
    cases he

theorem KeyType.refuses_of_wire {t : KeyType} {v : Value} {e : Failure} (h : t.wire v = .error e) :
    ∃ f, t.Refuses v f ∧ e = .fault f := by
  rcases t.wire_cases v with ⟨w, hw, -⟩ | ⟨f, hrefuses, he⟩
  · rw [h] at hw
    cases hw
  · rw [h] at he
    cases he
    exact ⟨f, hrefuses, rfl⟩

namespace Schema

variable {s : Schema} {hash range : Value} {key item : Item}

/-- The key attributes with the types that are declared for them. -/
def declared (s : Schema) : List (String × KeyType) :=
  s.hash?.toList ++ s.range?.toList

/-- Whether a schema that is ready knows the type of its range attribute, if it has one. -/
def IsTyped (s : Schema) : Prop :=
  s.isReady → (named? s.rangeKey).isSome → s.rangeType.isSome

instance (s : Schema) : Decidable s.IsTyped :=
  inferInstanceAs (Decidable (_ → _ → _))

/-- An item has every key attribute, each under a type that is declared for it. -/
def Keyed (s : Schema) (item : Item) : Prop :=
  ∀ name ∈ s.keyNames, ∃ type w, (name, type) ∈ s.declared ∧
    Entries.get? name item = some w ∧ w.tag = type.tag

/-- A whole key: the key attributes and nothing else. -/
structure IsKey (s : Schema) (key : Item) : Prop where
  keyed : s.Keyed key
  names : ∀ e ∈ key, e.1 ∈ s.keyNames
  nodup : (key.map Prod.fst).Nodup

/-- A key that is put into an item leaves it with the key attributes. -/
theorem IsKey.keyed_merge (h : s.IsKey key) (item : Item) : s.Keyed (Entries.merge item key) := by
  intro name hname
  obtain ⟨type, w, hdeclared, hget, htag⟩ := h.keyed name hname
  refine ⟨type, w, hdeclared, ?_, htag⟩
  rw [Entries.get?_merge_of_nodup h.nodup, hget]
  rfl

/-- What a key consists of: nothing while the schema is not ready, else the hash value and, if it is
given and the range attribute is known with its type, the range value. -/
theorem key_cases (h : s.key hash range = .ok key) :
    (s.hash? = none ∧ key = []) ∨
      ∃ hashName hashType hashWire, s.hash? = some (hashName, hashType) ∧
        hashType.wire hash = .ok hashWire ∧
        (((range = .null ∨ s.range? = none) ∧ key = [(hashName, hashWire)]) ∨
          ∃ rangeName rangeType rangeWire, s.range? = some (rangeName, rangeType) ∧
            rangeType.wire range = .ok rangeWire ∧
            key = Entries.insert rangeName rangeWire [(hashName, hashWire)]) := by
  unfold Schema.key at h
  split at h
  · next hhash =>
    cases h
    exact .inl ⟨hhash, rfl⟩
  next hashName hashType hhash =>
  cases hwire : hashType.wire hash with
  | error e =>
    rw [hwire] at h
    cases h
  | ok hashWire =>
    rw [hwire] at h
    dsimp only [bind, Except.bind] at h
    refine .inr ⟨hashName, hashType, hashWire, hhash, hwire, ?_⟩
    split at h
    · cases h
      exact .inl ⟨.inl rfl, rfl⟩
    · next hrange =>
      cases h
      exact .inl ⟨.inr hrange, rfl⟩
    next range _ _ rangeName rangeType _ hrange =>
    cases hwire' : rangeType.wire range with
    | error e =>
      rw [hwire'] at h
      cases h
    | ok rangeWire =>
      rw [hwire'] at h
      cases h
      exact .inr ⟨rangeName, rangeType, rangeWire, hrange, hwire', rfl⟩

/-- There is a key as soon as the schema is ready. -/
theorem isEmpty_of_key (h : s.key hash range = .ok key) : key.isEmpty = !s.isReady := by
  rcases key_cases h with ⟨hnone, rfl⟩ | ⟨_, _, _, hhash, -, hparts⟩
  · rw [isReady, hnone]
    rfl
  · have hready : s.isReady = true := Option.isSome_of_eq_some hhash
    rw [hready]
    rcases hparts with ⟨-, rfl⟩ | ⟨_, _, _, -, -, rfl⟩
    · rfl
    · rw [Entries.insert]
      split <;> rfl

/-- A key cannot be built if the type of an attribute refuses its value, and else it can. -/
theorem key_error_cases {e : Failure} (h : s.key hash range = .error e) :
    ∃ name type f, e = .fault f ∧
      ((s.hash? = some (name, type) ∧ type.Refuses hash f) ∨
        (s.range? = some (name, type) ∧ type.Refuses range f)) := by
  unfold Schema.key at h
  split at h
  · cases h
  next hashName hashType hhash =>
  cases hwire : hashType.wire hash with
  | error e' =>
    obtain ⟨f, hf, rfl⟩ := KeyType.refuses_of_wire hwire
    rw [hwire] at h
    cases h
    exact ⟨hashName, hashType, f, rfl, .inl ⟨hhash, hf⟩⟩
  | ok hashWire =>
    rw [hwire] at h
    dsimp only [bind, Except.bind] at h
    split at h
    · cases h
    · cases h
    next range _ _ rangeName rangeType _ hrange =>
    cases hwire' : rangeType.wire range with
    | ok rangeWire =>
      rw [hwire'] at h
      cases h
    | error e' =>
      obtain ⟨f, hf, rfl⟩ := KeyType.refuses_of_wire hwire'
      rw [hwire'] at h
      cases h
      exact ⟨rangeName, rangeType, f, rfl, .inr ⟨hrange, hf⟩⟩

/-- A schema that is ready and typed has no range attribute but one that it knows. -/
theorem IsTyped.named?_of_range? (hs : s.IsTyped) (hready : s.isReady) (h : s.range? = none) :
    named? s.rangeKey = none := by
  unfold range? attribute? at h
  cases hnamed : named? s.rangeKey with
  | none => rfl
  | some rangeName =>
    obtain ⟨type, htype⟩ :=
      Option.isSome_iff_exists.mp (hs hready (Option.isSome_of_eq_some hnamed))
    rw [hnamed, htype] at h
    cases h

variable {hashName rangeName : String} {hashType rangeType : KeyType} {hashWire rangeWire : Wire}

theorem isKey_hashOnly (hhash : s.hash? = some (hashName, hashType))
    (hnone : named? s.rangeKey = none) (htag : hashWire.tag = hashType.tag) :
    s.IsKey [(hashName, hashWire)] := by
  have hnames : s.keyNames = [hashName] := by
    rw [keyNames, named?_of_attribute? hhash, hnone]
    rfl
  refine ⟨fun name hmem => ?_, fun e he => ?_, List.pairwise_singleton _ _⟩
  · rw [hnames, List.mem_singleton] at hmem
    subst hmem
    refine ⟨hashType, hashWire, ?_, ?_, htag⟩
    · rw [declared, hhash]
      exact List.mem_append_left _ List.mem_cons_self
    · rw [Entries.get?, if_pos (beq_self_eq_true name)]
  · rw [hnames, List.mem_singleton.mp he]
    exact List.mem_cons_self

theorem isKey_ranged (hhash : s.hash? = some (hashName, hashType))
    (hrange : s.range? = some (rangeName, rangeType)) (htag : hashWire.tag = hashType.tag)
    (htag' : rangeWire.tag = rangeType.tag) :
    s.IsKey (Entries.insert rangeName rangeWire [(hashName, hashWire)]) := by
  have hnames : s.keyNames = [hashName, rangeName] := by
    rw [keyNames, named?_of_attribute? hhash, named?_of_attribute? hrange]
    rfl
  have hdeclared : s.declared = [(hashName, hashType), (rangeName, rangeType)] := by
    rw [declared, hhash, hrange]
    rfl
  refine ⟨fun name hmem => ?_, fun e he => ?_, Entries.nodup_insert (List.pairwise_singleton _ _)⟩
  · rw [hdeclared]
    -- a range attribute of the name of the hash attribute takes its place
    by_cases hsame : rangeName = name
    · subst hsame
      exact ⟨rangeType, rangeWire, List.mem_cons_of_mem _ List.mem_cons_self,
        Entries.get?_insert_self _ _ _, htag'⟩
    · rw [hnames, List.mem_cons, List.mem_singleton] at hmem
      have hhashName : name = hashName := hmem.resolve_right fun he => hsame he.symm
      subst hhashName
      refine ⟨hashType, hashWire, List.mem_cons_self, ?_, htag⟩
      rw [Entries.get?_insert_of_ne hsame, Entries.get?, if_pos (beq_self_eq_true name)]
  · rw [hnames]
    rw [Entries.insert, Entries.insert] at he
    split at he
    · rw [List.mem_singleton.mp he]
      exact List.mem_cons_self
    · rw [List.mem_cons, List.mem_singleton] at he
      rcases he with rfl | rfl
      · exact List.mem_cons_self
      · exact List.mem_cons_of_mem _ List.mem_cons_self

/-- The key of a schema that knows its types is whole, if it has a hash value and, where there is a
range attribute, a range value. -/
theorem isKey_of_key (hs : s.IsTyped) (h : s.key hash range = .ok key) (hne : key ≠ [])
    (hnull : range = .null → named? s.rangeKey = none) : s.IsKey key := by
  rcases key_cases h with ⟨-, hnil⟩ | ⟨hashName, hashType, hashWire, hhash, hwire, hparts⟩
  · exact absurd hnil hne
  rcases hparts with ⟨hleft, rfl⟩ | ⟨rangeName, rangeType, rangeWire, hrange, hwire', rfl⟩
  · have hready : s.isReady := Option.isSome_of_eq_some hhash
    exact isKey_hashOnly hhash (hleft.elim hnull (hs.named?_of_range? hready))
      (KeyType.tag_of_wire hwire)
  · exact isKey_ranged hhash hrange (KeyType.tag_of_wire hwire) (KeyType.tag_of_wire hwire')

end Schema

end ItemStore
