import ItemStore.Proofs.Number.Integers
import ItemStore.Proofs.Value.Entries
import ItemStore.Proofs.Wire.Writable
import ItemStore.Wire.Decode

/-
  Plain values written as wire values and read back. The induction over values is done once, for
  any class of scalars and any way in which reading may change a scalar: `ReadsBack` says what is
  asked of one scalar, on its own and as an element of a set, and `fromWire_wireForm` derives what
  holds of every value made of such scalars, of lists and of maps with distinct text keys. Of the
  scalars only the writable ones need to be read back, as others are not written (`exists_toWire`,
  `exists_toItem`).
-/

namespace ItemStore.Value

/-! ## Values made of scalars -/

/-- Whether a key is a text that no key of the entries is. -/
def isFreshText (k : Value) (es : List (Value × Value)) : Bool :=
  match k with
  | .text s => !es.any fun e => e.1.shown == s
  | _ => false

mutual

/-- Whether a value is made of scalars of a class, of lists, and of maps with distinct text
keys. -/
def isMadeOf (scalar : Value → Bool) : Value → Bool
  | .seq kind xs => kind == .list && allMadeOf scalar xs
  | .map es => entriesMadeOf scalar es
  | v => scalar v

/-- Whether all values of a list are made so. -/
def allMadeOf (scalar : Value → Bool) : List Value → Bool
  | [] => true
  | x :: xs => isMadeOf scalar x && allMadeOf scalar xs

/-- Whether entries have distinct text keys and values that are made so. -/
def entriesMadeOf (scalar : Value → Bool) : List (Value × Value) → Bool
  | [] => true
  | (k, x) :: es => isFreshText k es && isMadeOf scalar x && entriesMadeOf scalar es

end

mutual

/-- The value with its scalars changed. -/
def mapScalars (f : Value → Value) : Value → Value
  | .seq kind xs => .seq kind (mapScalarsAll f xs)
  | .map es => .map (mapScalarsFields f es)
  | v => f v

/-- The values of a list with their scalars changed. -/
def mapScalarsAll (f : Value → Value) : List Value → List Value
  | [] => []
  | x :: xs => mapScalars f x :: mapScalarsAll f xs

/-- The entries of a map with the scalars of their values changed. -/
def mapScalarsFields (f : Value → Value) : List (Value × Value) → List (Value × Value)
  | [] => []
  | (k, x) :: es => (k, mapScalars f x) :: mapScalarsFields f es

end

mutual

theorem mapScalars_id : ∀ v : Value, mapScalars id v = v
  | .seq _ xs => by rw [mapScalars, mapScalarsAll_id xs]
  | .map es => by rw [mapScalars, mapScalarsFields_id es]
  | .null | .bool _ | .int _ | .float _ | .decimal _ | .text _ | .bytes _ _ | .date _
  | .timestamp _ | .foreign => by simp [mapScalars]

theorem mapScalarsAll_id : ∀ xs : List Value, mapScalarsAll id xs = xs
  | [] => rfl
  | x :: xs => by rw [mapScalarsAll, mapScalars_id x, mapScalarsAll_id xs]

theorem mapScalarsFields_id : ∀ es : List (Value × Value), mapScalarsFields id es = es
  | [] => rfl
  | (_, x) :: es => by rw [mapScalarsFields, mapScalars_id x, mapScalarsFields_id es]

end

/-- What is asked of a scalar, and of what reading makes of it: it is read back on its own, and
as an element of a set of its shape. -/
structure ReadsBack (decimalNumbers : Bool) (f : Value → Value) (x : Value) : Prop where
  alone : fromWire decimalNumbers x.wireForm.toValue = .ok (f x)
  text : x.scalarShape = .text → .text x.shown = f x
  number : x.scalarShape = .number → readNumber decimalNumbers (.text x.shown) = .ok (f x)
  binary : x.scalarShape = .binary → .bytes .fixed x.data = f x

/-! ## Elements of sets -/

/-- A value with a shape that a set can have is no list and no map. -/
theorem isMadeOf_of_shape {scalar : Value → Bool} {x : Value}
    (h : x.scalarShape ≠ .unsupported) : isMadeOf scalar x = scalar x := by
  cases x <;> first | rfl | exact absurd rfl h

theorem mapScalars_of_shape {f : Value → Value} {x : Value} (h : x.scalarShape ≠ .unsupported) :
    mapScalars f x = f x := by
  cases x <;> first | rfl | exact absurd rfl h

theorem isMadeOf_of_allMadeOf {scalar : Value → Bool} {xs : List Value}
    (h : allMadeOf scalar xs = true) : ∀ x ∈ xs, isMadeOf scalar x = true := by
  induction xs with
  | nil => simp
  | cons x xs ih =>
    simp only [allMadeOf, Bool.and_eq_true] at h
    rw [List.forall_mem_cons]
    exact ⟨h.1, ih h.2⟩

theorem mapScalarsAll_eq_map (f : Value → Value) (xs : List Value) :
    mapScalarsAll f xs = xs.map (mapScalars f) := by
  induction xs with
  | nil => rfl
  | cons x xs ih => rw [mapScalarsAll, ih, List.map_cons]

theorem mapM_of_forall_ok {g : α → Outcome β} {f : α → β} {xs : List α}
    (h : ∀ x ∈ xs, g x = .ok (f x)) : xs.mapM g = .ok (xs.map f) := by
  induction xs with
  | nil => rfl
  | cons x xs ih =>
    rw [List.forall_mem_cons] at h
    rw [List.mapM_cons, h.1, ih h.2]
    rfl

section

variable {decimalNumbers : Bool} {f : Value → Value} {scalar : Value → Bool}

/-- The elements of a set are scalars of the class, each read back as `f` says. -/
theorem readsBack_of_shape (hs : ∀ x, scalar x = true → ReadsBack decimalNumbers f x)
    {xs : List Value} (hm : allMadeOf scalar xs = true) {shape : Shape}
    (hne : shape ≠ .unsupported) (hx : ∀ x ∈ xs, x.scalarShape = shape) :
    ∀ x ∈ xs, ReadsBack decimalNumbers f x ∧ mapScalars f x = f x := by
  intro x hmem
  have hxne : x.scalarShape ≠ .unsupported := by rw [hx x hmem]; exact hne
  have hmade := isMadeOf_of_allMadeOf hm x hmem
  rw [isMadeOf_of_shape hxne] at hmade
  exact ⟨hs x hmade, mapScalars_of_shape hxne⟩

/-- Elements of a set that is read as it stands, under the tag of their shape. -/
theorem map_content (hs : ∀ x, scalar x = true → ReadsBack decimalNumbers f x)
    {xs : List Value} (hm : allMadeOf scalar xs = true) {shape : Shape}
    (hne : shape ≠ .unsupported) (hshape : ∀ x ∈ xs, x.scalarShape = shape)
    {content : Value → α} {value : α → Value}
    (hback : ∀ x, ReadsBack decimalNumbers f x → x.scalarShape = shape → value (content x) = f x) :
    (xs.map content).map value = mapScalarsAll f xs := by
  have helements := readsBack_of_shape hs hm hne hshape
  rw [mapScalarsAll_eq_map, List.map_map]
  refine List.map_congr_left fun x hmem => ?_
  rw [(helements x hmem).2, ← hback x (helements x hmem).1 (hshape x hmem)]
  rfl

theorem fromWire_numberSet (hs : ∀ x, scalar x = true → ReadsBack decimalNumbers f x)
    {xs : List Value} (hm : allMadeOf scalar xs = true)
    (hshape : ∀ x ∈ xs, x.scalarShape = .number) :
    fromWire decimalNumbers (setForm .numberSet xs).toValue =
      .ok (.list (mapScalarsAll f xs)) := by
  have hback := readsBack_of_shape hs hm (by decide) hshape
  have hread : ((xs.map shown).map Value.text).mapM (readNumber decimalNumbers) =
      .ok (mapScalarsAll f xs) := by
    rw [mapScalarsAll_eq_map, List.map_map, List.mapM_map]
    refine mapM_of_forall_ok fun x hmem => ?_
    rw [(hback x hmem).2]
    exact (hback x hmem).1.number (hshape x hmem)
  have hopen : fromWire decimalNumbers (setForm .numberSet xs).toValue =
      (((xs.map shown).map Value.text).mapM (readNumber decimalNumbers) >>= fun ys =>
        pure (.list ys)) := rfl
  rw [hopen, hread]
  rfl

/-! ## Maps -/

theorem map_fst_wireFormFields (es : List (Value × Value)) :
    (wireFormFields es).map Prod.fst = es.map fun e => e.1.shown := by
  induction es with
  | nil => rfl
  | cons e es ih => rw [wireFormFields, List.map_cons, List.map_cons, ih]

/-- A fresh key is a text, and its text is that of no key of the entries. -/
theorem isFreshText_iff {k : Value} {es : List (Value × Value)} :
    isFreshText k es = true ↔ ∃ s, k = .text s ∧ s ∉ es.map fun e => e.1.shown := by
  cases k with
  | text s =>
    have hmem : isFreshText (.text s) es = true ↔ s ∉ es.map fun e => e.1.shown := by
      simp [isFreshText]
    rw [hmem]
    exact ⟨fun h => ⟨s, rfl, h⟩, fun ⟨t, ht, h⟩ => by cases ht; exact h⟩
  | _ => simp [isFreshText]

/-- Distinct text keys give distinct attribute names. -/
theorem nodup_wireFormFields {es : List (Value × Value)} (h : entriesMadeOf scalar es = true) :
    ((wireFormFields es).map Prod.fst).Nodup := by
  rw [map_fst_wireFormFields]
  induction es with
  | nil => simp
  | cons e es ih =>
    simp only [entriesMadeOf, Bool.and_eq_true] at h
    obtain ⟨s, hk, hfresh⟩ := isFreshText_iff.mp h.1.1
    rw [List.map_cons, List.nodup_cons, hk]
    exact ⟨hfresh, ih h.2⟩

/-! ## The round trip -/

mutual

/-- A value made of scalars that are read back is read back itself, with its scalars changed as
reading changes them. -/
theorem fromWire_wireForm (hs : ∀ x, scalar x = true → ReadsBack decimalNumbers f x) :
    ∀ v, isMadeOf scalar v = true →
      fromWire decimalNumbers v.wireForm.toValue = .ok (mapScalars f v)
  | .seq kind xs, h => by
    simp only [isMadeOf, Bool.and_eq_true, beq_iff_eq] at h
    obtain ⟨rfl, hm⟩ := h
    rw [wireForm, mapScalars]
    rcases sequenceShape_cases xs with hx | ⟨hx, he⟩ | ⟨hx, he⟩ | ⟨hx, he⟩
    · have hall := fromWireAll_wireFormAll hs xs hm
      rw [hx]
      simp only [Wire.toValue]
      have hopen : fromWire decimalNumbers
          (Wire.tagged .l (.list (Wire.toValueAll (wireFormAll xs)))) =
          .list <$> fromWireAll decimalNumbers (Wire.toValueAll (wireFormAll xs)) := rfl
      rw [hopen, hall]
      rfl
    · rw [hx, ← map_content hs hm (by decide) he fun _ h => h.text]
      rfl
    · rw [hx]
      exact fromWire_numberSet hs hm he
    · rw [hx, ← map_content hs hm (by decide) he fun _ h => h.binary]
      rfl
  | .map es, h => by
    rw [isMadeOf] at h
    have hfields := fromWireFields_wireFormFields hs es h
    rw [wireForm, Entries.ofPairs_of_nodup (nodup_wireFormFields h), mapScalars]
    have hopen : fromWire decimalNumbers (Wire.m (wireFormFields es)).toValue =
        .map <$> fromWireFields decimalNumbers (Wire.toValueFields (wireFormFields es)) := rfl
    rw [hopen, hfields]
    rfl
  | .null, h | .bool _, h | .int _, h | .float _, h | .decimal _, h | .text _, h | .bytes _ _, h
  | .date _, h | .timestamp _, h | .foreign, h => (hs _ h).alone

theorem fromWireAll_wireFormAll (hs : ∀ x, scalar x = true → ReadsBack decimalNumbers f x) :
    ∀ xs, allMadeOf scalar xs = true →
      fromWireAll decimalNumbers (Wire.toValueAll (wireFormAll xs)) = .ok (mapScalarsAll f xs)
  | [], _ => rfl
  | x :: xs, h => by
    simp only [allMadeOf, Bool.and_eq_true] at h
    rw [wireFormAll, Wire.toValueAll, fromWireAll, fromWire_wireForm hs x h.1,
      fromWireAll_wireFormAll hs xs h.2]
    rfl

theorem fromWireFields_wireFormFields
    (hs : ∀ x, scalar x = true → ReadsBack decimalNumbers f x) :
    ∀ es, entriesMadeOf scalar es = true →
      fromWireFields decimalNumbers (Wire.toValueFields (wireFormFields es)) =
        .ok (mapScalarsFields f es)
  | [], _ => rfl
  | (k, x) :: es, h => by
    simp only [entriesMadeOf, Bool.and_eq_true] at h
    obtain ⟨s, rfl, -⟩ := isFreshText_iff.mp h.1.1
    rw [wireFormFields, Wire.toValueFields, fromWireFields, fromWire_wireForm hs x h.1.2,
      fromWireFields_wireFormFields hs es h.2]
    rfl

end

/-- The attributes of a map with distinct text keys are read back in order. -/
theorem fromItem_wireFormFields (hs : ∀ x, scalar x = true → ReadsBack decimalNumbers f x)
    {es : List (Value × Value)} (h : isMadeOf scalar (.map es) = true) :
    fromItem decimalNumbers (Item.toValue (wireFormFields es)) =
      .ok (mapScalars f (.map es)) := by
  rw [isMadeOf] at h
  have hfields := fromWireFields_wireFormFields hs es h
  cases es with
  | nil => rfl
  | cons e es =>
    have hopen : fromItem decimalNumbers (Item.toValue (wireFormFields (e :: es))) =
        (fromWireFields decimalNumbers (Wire.toValueFields (wireFormFields (e :: es))) >>=
          fun fs => pure (.map fs)) := rfl
    rw [hopen, hfields]
    rfl

end

/-! ## Values that are written -/

section

variable {scalar : Value → Bool}

mutual

/-- The scalars of a writable value are writable. -/
theorem isMadeOf_writable : ∀ v : Value, isMadeOf scalar v = true → v.isWritable = true →
    isMadeOf (fun x => scalar x && x.isWritable) v = true
  | .seq kind xs, h, hw => by
    rw [isMadeOf, Bool.and_eq_true] at h ⊢
    exact ⟨h.1, allMadeOf_writable xs h.2 hw⟩
  | .map es, h, hw => by
    rw [isMadeOf] at h ⊢
    exact entriesMadeOf_writable es h hw
  | .null, h, hw | .bool _, h, hw | .int _, h, hw | .float _, h, hw | .decimal _, h, hw
  | .text _, h, hw | .bytes _ _, h, hw | .date _, h, hw | .timestamp _, h, hw
  | .foreign, h, hw => Bool.and_eq_true_iff.mpr ⟨h, hw⟩

theorem allMadeOf_writable : ∀ xs : List Value, allMadeOf scalar xs = true →
    allWritable xs = true → allMadeOf (fun x => scalar x && x.isWritable) xs = true
  | [], _, _ => rfl
  | x :: xs, h, hw => by
    rw [allMadeOf, Bool.and_eq_true] at h ⊢
    rw [allWritable, Bool.and_eq_true] at hw
    exact ⟨isMadeOf_writable x h.1 hw.1, allMadeOf_writable xs h.2 hw.2⟩

theorem entriesMadeOf_writable : ∀ es : List (Value × Value), entriesMadeOf scalar es = true →
    entriesWritable es = true → entriesMadeOf (fun x => scalar x && x.isWritable) es = true
  | [], _, _ => rfl
  | (k, x) :: es, h, hw => by
    rw [entriesMadeOf, Bool.and_eq_true, Bool.and_eq_true] at h ⊢
    rw [entriesWritable, Bool.and_eq_true, Bool.and_eq_true] at hw
    exact ⟨⟨h.1.1, isMadeOf_writable x h.1.2 hw.1.2⟩, entriesMadeOf_writable es h.2 hw.2⟩

end

variable {decimalNumbers : Bool} {f : Value → Value}
  (hs : ∀ x, scalar x = true → x.isWritable = true → ReadsBack decimalNumbers f x)

include hs

theorem readsBack_of_writable (x : Value) (h : (scalar x && x.isWritable) = true) :
    ReadsBack decimalNumbers f x :=
  hs x (Bool.and_eq_true_iff.mp h).1 (Bool.and_eq_true_iff.mp h).2

/-- A value of scalars that are read back is written and read back, if it is writable. -/
theorem exists_toWire {v : Value} (h : isMadeOf scalar v = true) (hw : v.isWritable = true) :
    ∃ w, v.toWire = .ok w ∧ fromWire decimalNumbers w.toValue = .ok (mapScalars f v) :=
  ⟨v.wireForm, toWire_of_isWritable hw,
    fromWire_wireForm (readsBack_of_writable hs) v (isMadeOf_writable v h hw)⟩

theorem exists_toItem {es : List (Value × Value)} (h : isMadeOf scalar (.map es) = true)
    (hw : isWritable (.map es) = true) :
    ∃ item, toItem (.map es) = .ok item ∧
      fromItem decimalNumbers item.toValue = .ok (mapScalars f (.map es)) := by
  have hnames := nodup_wireFormFields (by rwa [isMadeOf] at h)
  refine ⟨wireFormFields es, ?_,
    fromItem_wireFormFields (readsBack_of_writable hs) (isMadeOf_writable _ h hw)⟩
  rw [toItem_map, hw, Entries.ofPairs_of_nodup hnames]
  rfl

end

end ItemStore.Value
