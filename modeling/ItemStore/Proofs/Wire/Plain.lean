import ItemStore.Proofs.Wire.RoundTrip

/-
  Plain values: those made of null, booleans, integers, texts and bytes, of lists and of maps with
  distinct text keys. When numbers are not read as decimals, a plain value is read back from its
  wire value unchanged, whichever of the ten tags its parts are stored under, and a plain map is
  read back from its item (`fromWire_toWire_of_isPlain`).

  Not covered: binary64 numbers and decimals, the changeable kinds of bytes, tuples and sets, and
  dates. They are stored too, but come back as another kind of value.
-/

namespace ItemStore.Value

/-- The scalars that default reading gives back as they were. -/
def isPlainScalar : Value → Bool
  | .null | .bool _ | .int _ | .text _ | .bytes .fixed _ => true
  | _ => false

/-- Whether a value is plain. -/
def isPlain (v : Value) : Bool :=
  isMadeOf isPlainScalar v

/-! ## Scalars -/

/-- The text of an integer has neither a point nor an exponent. -/
theorem isFractional_intText (n : Int) : isFractional (intText n) = false := by
  rw [isFractional, intText, String.toList_ofList, List.any_eq_false]
  intro c hc
  rw [Number.isFractionChar_eq_false c (Number.mem_integerChars_of_mem_intText hc)]
  exact Bool.false_ne_true

/-- An integer that is written is read back from its text. -/
theorem readNumber_intText {n : Int} (h : Number.isWritable n = true) :
    readNumber false (.text (intText n)) = .ok (.int n) := by
  have hread : toPlainNumber (.text (intText n)) = .ok (.int n) := by
    rw [toPlainNumber, isFractional_intText, intText, String.toList_ofList,
      Number.readInt?_intText, if_pos h]
    rfl
  simp only [readNumber, hread, Bool.false_eq_true, if_false]

theorem readsBack_of_isPlainScalar (x : Value) (h : isPlainScalar x = true)
    (hw : x.isWritable = true) : ReadsBack false id x := by
  cases x with
  | null => exact ⟨rfl, nofun, nofun, nofun⟩
  | bool b => exact ⟨rfl, nofun, nofun, nofun⟩
  | int n =>
    have hread := readNumber_intText hw
    exact ⟨hread, nofun, fun _ => hread, nofun⟩
  | text s => exact ⟨rfl, fun _ => rfl, nofun, nofun⟩
  | bytes kind data =>
    cases kind with
    | fixed => exact ⟨rfl, nofun, nofun, fun _ => rfl⟩
    | _ => exact absurd h Bool.false_ne_true
  | _ => exact absurd h Bool.false_ne_true

/-! ## The round trip in default mode -/

/-- A plain value without an integer of too many digits is written and read back from its wire
value, and a plain map from its item: the same constructors, with elements, keys and entries in the
same order. Any other plain value is a fault to write. -/
theorem fromWire_toWire_of_isPlain (v : Value) (h : v.isPlain = true) :
    (v.isWritable = true →
      (∃ w, v.toWire = .ok w ∧ fromWire false w.toValue = .ok v) ∧
        ∀ es, v = .map es →
          ∃ item, toItem v = .ok item ∧ fromItem false item.toValue = .ok v) ∧
    (v.isWritable = false → v.toWire = .error .badValue ∧
      ∀ es, v = .map es → toItem v = .error .badValue) := by
  refine ⟨fun hw => ⟨?_, ?_⟩, fun hw => ⟨toWire_of_not_isWritable hw, ?_⟩⟩
  · obtain ⟨w, hto, hfrom⟩ := exists_toWire readsBack_of_isPlainScalar h hw
    exact ⟨w, hto, by rw [hfrom, mapScalars_id]⟩
  · rintro es rfl
    obtain ⟨item, hto, hfrom⟩ := exists_toItem readsBack_of_isPlainScalar h hw
    exact ⟨item, hto, by rw [hfrom, mapScalars_id]⟩
  · rintro es rfl
    rw [toItem_map, hw]
    rfl

/-- A map whose lists are stored as a list, as a number set, as a text set and as a binary set,
one of them empty and one with a repeated element. -/
def mixedLists : List (Value × Value) :=
  [(.text "n", .list [.int 10, .int (-3), .int 10]), (.text "", .list []),
    (.text "m", .list [.bool true, .int 1, .list [.text "a", .text "b"], .null]),
    (.text "b", .list [.bytes .fixed [0, 255]]), (.text "d", .map [(.text "k", .text "v")])]

theorem fromWire_toWire_mixedLists :
    isPlain (.map mixedLists) = true ∧ isWritable (.map mixedLists) = true ∧
      (∃ w, toWire (.map mixedLists) = .ok w ∧
        fromWire false w.toValue = .ok (.map mixedLists)) ∧
      ∃ item, toItem (.map mixedLists) = .ok item ∧
        fromItem false item.toValue = .ok (.map mixedLists) :=
  have h : isPlain (.map mixedLists) = true := by decide
  have hw : isWritable (.map mixedLists) = true := by decide +kernel
  have ⟨hvalue, hitem⟩ := (fromWire_toWire_of_isPlain _ h).1 hw
  ⟨h, hw, hvalue, hitem _ rfl⟩

/-- A one and more zeros behind it than an integer may have digits has no wire value. -/
theorem not_fromWire_toWire_of_isPlain :
    isPlain (.int (Nat.pow 10 Number.maxDigits)) = true ∧
      ¬∃ w, toWire (.int (Nat.pow 10 Number.maxDigits)) = .ok w := by
  refine ⟨rfl, ?_⟩
  rintro ⟨w, hw⟩
  have hdigits := (toWire_eq_ok_iff.mp hw).1
  rw [isWritable, Number.isWritable_pow] at hdigits
  cases hdigits

end ItemStore.Value
