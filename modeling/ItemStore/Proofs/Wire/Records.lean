import ItemStore.Proofs.Wire.Exact
import ItemStore.Proofs.Wire.Nodes
import ItemStore.Proofs.Wire.Plain
import Mathlib.Data.List.Forall2

/-
  Maps with text keys as items. `Item.ofParams` is the item of a record that is written: one
  attribute for each field, under its name and in its place (`toItem_record`). Such items are read
  back field by field (`fromItem_ofParams`), each value as `readBack` says: as it was where numbers
  are not read as decimals, else with its integers as decimals.

  Which values are read back is the same question in either mode, asked of other scalars
  (`isRecoverable`), and of these only the writable ones are written (`isReadable`). Fields of any
  wire values are read one by one as well: the names stay, in their order, and under each stands
  what is read of its value (`IsRead`).
-/

namespace ItemStore

namespace Value

/-- Whether a value is made of scalars that are read back if they are written: those of plain
values, or, where numbers are read as decimals, those in the range of decimals. -/
def isRecoverable (decimalNumbers : Bool) (v : Value) : Bool :=
  isMadeOf (if decimalNumbers then isExactScalar else isPlainScalar) v

/-- Whether a scalar is written and read back. -/
def isReadableScalar (decimalNumbers : Bool) (x : Value) : Bool :=
  (if decimalNumbers then isExactScalar else isPlainScalar) x && x.isWritable

/-- Whether a value is written and read back. -/
def isReadable (decimalNumbers : Bool) (v : Value) : Bool :=
  isMadeOf (isReadableScalar decimalNumbers) v

/-- What reading makes of a value: the value, or the value with its integers as decimals. -/
def readBack (decimalNumbers : Bool) (v : Value) : Value :=
  if decimalNumbers then v.mapScalars asDecimal else v

variable {decimalNumbers : Bool}

theorem isReadable_of_isRecoverable {v : Value} (h : v.isRecoverable decimalNumbers = true)
    (hw : v.isWritable = true) : v.isReadable decimalNumbers = true :=
  isMadeOf_writable v h hw

theorem fromWire_readBack {v : Value} (h : v.isReadable decimalNumbers = true) :
    fromWire decimalNumbers v.wireForm.toValue = .ok (v.readBack decimalNumbers) := by
  cases decimalNumbers with
  | false =>
    have hread : fromWire false v.wireForm.toValue = .ok (v.mapScalars id) :=
      fromWire_wireForm (readsBack_of_writable readsBack_of_isPlainScalar) v h
    rw [hread, mapScalars_id]
    rfl
  | true => exact fromWire_wireForm (readsBack_of_writable readsBack_of_isExactScalar) v h

theorem mapScalarsFields_record (f : Value → Value) (fields : Params) :
    mapScalarsFields f (fields.map (Prod.map .text id)) =
      fields.map (Prod.map .text (mapScalars f)) := by
  induction fields with
  | nil => rfl
  | cons e fields ih => rw [List.map_cons, List.map_cons, Prod.map, mapScalarsFields, ih]; rfl

theorem record_eq (fields : Params) : record fields = .map (fields.map (Prod.map .text id)) :=
  rfl

theorem readBack_record (fields : Params) :
    (record fields).readBack decimalNumbers =
      record (fields.map (Prod.map id (readBack decimalNumbers))) := by
  cases decimalNumbers with
  | false =>
    have hid : readBack false = id := rfl
    rw [hid, Prod.map_id, List.map_id]
    rfl
  | true =>
    show mapScalars asDecimal (record fields) = _
    rw [record_eq, record_eq, mapScalars, mapScalarsFields_record, List.map_map]
    rfl

/-- A record is made of scalars of a class if its names are distinct and its values are. -/
theorem isMadeOf_record {scalar : Value → Bool} {fields : Params} :
    isMadeOf scalar (record fields) = true ↔
      (fields.map Prod.fst).Nodup ∧ ∀ e ∈ fields, isMadeOf scalar e.2 = true := by
  show entriesMadeOf scalar (fields.map (Prod.map .text id)) = true ↔ _
  induction fields with
  | nil => simp [entriesMadeOf]
  | cons e fields ih =>
    have hnames : ((fields.map (Prod.map .text id)).map fun e : Value × Value => e.1.shown) =
        fields.map Prod.fst := by
      rw [List.map_map]
      rfl
    have hfresh : isFreshText (.text e.1) (fields.map (Prod.map .text id)) = true ↔
        e.1 ∉ fields.map Prod.fst := by
      rw [isFreshText_iff, hnames]
      exact ⟨fun ⟨s, hs, h⟩ => by cases hs; exact h, fun h => ⟨e.1, rfl, h⟩⟩
    rw [List.map_cons, List.map_cons, List.nodup_cons, List.forall_mem_cons, Prod.map,
      entriesMadeOf, Bool.and_eq_true, Bool.and_eq_true, ih, hfresh]
    exact ⟨fun ⟨⟨h₁, h₂⟩, h₃, h₄⟩ => ⟨⟨h₁, h₃⟩, h₂, h₄⟩,
      fun ⟨⟨h₁, h₃⟩, h₂, h₄⟩ => ⟨⟨h₁, h₂⟩, h₃, h₄⟩⟩

theorem isReadable_record {fields : Params} :
    (record fields).isReadable decimalNumbers = true ↔
      (fields.map Prod.fst).Nodup ∧ ∀ e ∈ fields, e.2.isReadable decimalNumbers = true :=
  isMadeOf_record

theorem isReadable_merge {fields fields' : Params}
    (h : (record fields).isReadable decimalNumbers = true)
    (h' : (record fields').isReadable decimalNumbers = true) :
    (record (Entries.merge fields fields')).isReadable decimalNumbers = true := by
  rw [isReadable_record] at h h' ⊢
  exact ⟨Entries.nodup_merge h.1,
    Entries.forall_mem_merge (P := fun v : Value => v.isReadable decimalNumbers = true) h.2 h'.2⟩

/-! ## Fields read one by one -/

/-- Fields of wire values and the fields that they are read as. -/
def IsRead (decimalNumbers : Bool) (fields all : Params) : Prop :=
  List.Forall₂ (fun e v => v.1 = e.1 ∧ fromWire decimalNumbers e.2 = .ok v.2) fields all

namespace IsRead

variable {fields all : Params}

theorem map_fst_eq (h : IsRead decimalNumbers fields all) :
    all.map Prod.fst = fields.map Prod.fst := by
  induction h with
  | nil => rfl
  | cons hhead _ ih => rw [List.map_cons, List.map_cons, ih, hhead.1]

/-- A name is bound in both to a wire value and what it is read as, or in neither. -/
theorem get?_cases (h : IsRead decimalNumbers fields all) (name : String) :
    (Entries.get? name fields = none ∧ Entries.get? name all = none) ∨
      ∃ w v, Entries.get? name fields = some w ∧ Entries.get? name all = some v ∧
        fromWire decimalNumbers w = .ok v := by
  induction h with
  | nil => exact .inl ⟨rfl, rfl⟩
  | @cons e v _ _ hhead _ ih =>
    rw [Entries.get?, Entries.get?, hhead.1]
    by_cases hname : (e.1 == name) = true
    · rw [if_pos hname, if_pos hname]
      exact .inr ⟨_, _, rfl, rfl, hhead.2⟩
    · rw [if_neg hname, if_neg hname]
      exact ih

theorem erase (h : IsRead decimalNumbers fields all) (name : String) :
    IsRead decimalNumbers (Entries.erase name fields) (Entries.erase name all) := by
  induction h with
  | nil => exact .nil
  | @cons e v _ _ hhead htail ih =>
    rw [Entries.erase, Entries.erase, hhead.1]
    split
    · exact htail
    · exact .cons ⟨rfl, hhead.2⟩ ih

end IsRead

/-- Fields are read just if what is under each of them is. -/
theorem exists_isRead_iff {fields : Params} : (∃ all, IsRead decimalNumbers fields all) ↔
    ∀ e ∈ fields, ∃ v, fromWire decimalNumbers e.2 = .ok v := by
  induction fields with
  | nil => exact ⟨fun _ => List.forall_mem_nil _, fun _ => ⟨[], .nil⟩⟩
  | cons e fields ih =>
    rw [List.forall_mem_cons, ← ih]
    constructor
    · rintro ⟨_, hread⟩
      cases hread with
      | cons hhead htail => exact ⟨⟨_, hhead.2⟩, _, htail⟩
    · rintro ⟨⟨v, hv⟩, all, hall⟩
      exact ⟨(e.1, v) :: all, .cons ⟨rfl, hv⟩ hall⟩

theorem fromWireFields_of_isRead {fields all : Params} (h : IsRead decimalNumbers fields all) :
    fromWireFields decimalNumbers (fields.map (Prod.map .text id)) =
      .ok (all.map (Prod.map .text id)) := by
  induction h with
  | nil => rfl
  | cons hhead _ ih =>
    rw [List.map_cons, Prod.map, fromWireFields, id, hhead.2]
    show (fromWireFields _ _ >>= fun es => pure (_ :: es)) = _
    rw [ih, List.map_cons, Prod.map, hhead.1]
    rfl

theorem exists_isRead_of_fromWireFields {fields : Params} {es : List (Value × Value)}
    (h : fromWireFields decimalNumbers (fields.map (Prod.map .text id)) = .ok es) :
    ∃ all, IsRead decimalNumbers fields all := by
  induction fields generalizing es with
  | nil => exact ⟨[], .nil⟩
  | cons e fields ih =>
    rw [List.map_cons, Prod.map, fromWireFields, id] at h
    cases hv : fromWire decimalNumbers e.2 with
    | error f =>
      rw [hv] at h
      cases h
    | ok v =>
      cases hrest : fromWireFields decimalNumbers (fields.map (Prod.map .text id)) with
      | error f =>
        rw [hv, hrest] at h
        cases h
      | ok rest =>
        obtain ⟨all, hall⟩ := ih hrest
        exact ⟨(e.1, v) :: all, .cons ⟨rfl, hv⟩ hall⟩

end Value

/-- The item of a record: the wire forms of its values. -/
def Item.ofParams (fields : Params) : Item :=
  fields.map (Prod.map id Value.wireForm)

namespace Value

theorem wireFormFields_record (fields : Params) :
    wireFormFields (fields.map (Prod.map .text id)) = Item.ofParams fields := by
  induction fields with
  | nil => rfl
  | cons e fields ih => rw [List.map_cons, Prod.map, wireFormFields, ih]; rfl

/-- A record of distinct names has its item, if it is writable. -/
theorem toItem_record {fields : Params} (h : (fields.map Prod.fst).Nodup) :
    (record fields).toItem =
      if (record fields).isWritable then .ok (Item.ofParams fields) else .error .badValue := by
  have hnames : ((Item.ofParams fields).map Prod.fst).Nodup := by
    rw [Item.ofParams, List.map_map]
    exact h
  rw [record_eq, toItem_map, wireFormFields_record, Entries.ofPairs_of_nodup hnames]

/-- The entries that carry the item of a record. -/
def sentEntries (fields : Params) : List (Value × Value) :=
  fields.map (Prod.map .text fun v => v.wireForm.toValue)

theorem toValue_ofParams (fields : Params) :
    (Item.ofParams fields).toValue = .map (sentEntries fields) := by
  show Value.map (Wire.toValueFields (Item.ofParams fields)) = _
  induction fields with
  | nil => rfl
  | cons e fields ih =>
    have hrest := Value.map.inj ih
    show Value.map ((.text e.1, e.2.wireForm.toValue) ::
      Wire.toValueFields (Item.ofParams fields)) = _
    rw [hrest]
    rfl

theorem sentEntries_eq (fields : Params) : sentEntries fields =
    (fields.map (Prod.map id fun v => v.wireForm.toValue)).map (Prod.map .text id) := by
  rw [List.map_map]
  rfl

theorem isRead_sent {fields : Params} (h : ∀ e ∈ fields, e.2.isReadable decimalNumbers = true) :
    IsRead decimalNumbers (fields.map (Prod.map id fun v => v.wireForm.toValue))
      (fields.map (Prod.map id (readBack decimalNumbers))) := by
  rw [IsRead, List.forall₂_map_left_iff, List.forall₂_map_right_iff, List.forall₂_same]
  exact fun e he => ⟨rfl, fromWire_readBack (h e he)⟩

theorem fromWireFields_sentEntries {fields : Params}
    (h : ∀ e ∈ fields, e.2.isReadable decimalNumbers = true) :
    fromWireFields decimalNumbers (sentEntries fields) =
      .ok (fields.map (Prod.map .text (readBack decimalNumbers))) := by
  rw [sentEntries_eq, fromWireFields_of_isRead (isRead_sent h), List.map_map]
  rfl

/-- The item of a record is read back field by field. -/
theorem fromItem_ofParams {fields : Params}
    (h : ∀ e ∈ fields, e.2.isReadable decimalNumbers = true) :
    fromItem decimalNumbers (Item.ofParams fields).toValue =
      .ok ((record fields).readBack decimalNumbers) := by
  rw [toValue_ofParams, readBack_record, fromItem_map, fromWireFields_sentEntries h, record,
    List.map_map]
  rfl

/-! ## Fields of an item -/

/-- Texts are the same key only if they are the same. -/
theorem text_beq (s t : String) : (Value.text s == Value.text t) = (s == t) :=
  rfl

theorem merge_ofParams (fields fields' : Params) :
    Entries.merge (Item.ofParams fields) (Item.ofParams fields') =
      Item.ofParams (Entries.merge fields fields') :=
  Entries.merge_map (fun _ _ => rfl) _ fields fields'

theorem get?_ofParams (name : String) (fields : Params) :
    Entries.get? name (Item.ofParams fields) = (Entries.get? name fields).map wireForm :=
  Entries.get?_map (fun _ _ => rfl) _ name fields

end Value

end ItemStore
