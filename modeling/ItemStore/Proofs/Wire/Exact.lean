import ItemStore.Proofs.Number.Decimals
import ItemStore.Proofs.Wire.RoundTrip

/-
  Numbers read back as decimals. A value made of null, booleans, texts, bytes, integers and finite
  decimals, of lists and of maps with distinct text keys is read back from its wire value with
  each integer as the decimal of exponent 0 and each decimal as it was: sign, coefficient and
  exponent (`fromWire_toWire_of_isExact`). On its own, in a list, in a map or in a number set, a
  number is written by `Decimal.text` in all four places (`readNumber_text`).

  Decimals have a range (`Decimal.inRange`), and a decimal outside of it does not exist. Integers
  that are written are in that range, as they have few digits (`inRange_of_isWritable`).
-/

namespace ItemStore

open Number (Decimal)

/-- An integer that is written is in the range of decimals. -/
theorem Number.Decimal.inRange_of_isWritable {n : Int} (h : Number.isWritable n = true) :
    Decimal.inRange n.natAbs 0 = true := by
  have hlength : 0 < (Number.digits n.natAbs).length :=
    List.length_pos_iff.mpr (Number.digits_ne_nil _)
  rw [Number.isWritable, decide_eq_true_eq, Number.maxDigits] at h
  unfold Decimal.inRange Decimal.minExponent Decimal.maxExponent
  rw [Bool.and_eq_true, decide_eq_true_eq, decide_eq_true_eq]
  split <;> omega

namespace Value

/-- The scalars that reading numbers as decimals gives back: those that default reading gives
back, with numbers in the range of decimals. -/
def isExactScalar : Value → Bool
  | .null | .bool _ | .int _ | .text _ | .bytes .fixed _ => true
  | .decimal (.finite _ coefficient exponent) => Decimal.inRange coefficient exponent
  | _ => false

/-- Whether a value is made of such scalars. -/
def isExact (v : Value) : Bool :=
  isMadeOf isExactScalar v

/-- An integer as a decimal; all else as it is. -/
def asDecimal : Value → Value
  | .int n => .decimal (.ofInt n)
  | v => v

/-! ## Scalars -/

/-- A finite decimal is read back from its text. -/
theorem readNumber_text {negative : Bool} {coefficient : Nat} {exponent : Int}
    (h : Decimal.inRange coefficient exponent = true) :
    readNumber true (.text (String.ofList (Decimal.text (.finite negative coefficient exponent)))) =
      .ok (.decimal (.finite negative coefficient exponent)) := by
  have hread : toDecimal
      (.text (String.ofList (Decimal.text (.finite negative coefficient exponent)))) =
      .ok (.finite negative coefficient exponent) := by
    rw [toDecimal, String.toList_ofList, Decimal.readDecimal?_text h]
    rfl
  rw [readNumber, if_pos rfl, hread]
  rfl

/-- An integer that is written is read back from its text as a decimal. -/
theorem readNumber_intText_decimal {n : Int} (h : Number.isWritable n = true) :
    readNumber true (.text (intText n)) = .ok (.decimal (.ofInt n)) := by
  rw [intText, ← Decimal.text_ofInt, Decimal.ofInt]
  exact readNumber_text (Decimal.inRange_of_isWritable h)

theorem readsBack_of_isExactScalar (x : Value) (h : isExactScalar x = true)
    (hw : x.isWritable = true) : ReadsBack true asDecimal x := by
  cases x with
  | null => exact ⟨rfl, nofun, nofun, nofun⟩
  | bool b => exact ⟨rfl, nofun, nofun, nofun⟩
  | int n =>
    have hread := readNumber_intText_decimal hw
    exact ⟨hread, nofun, fun _ => hread, nofun⟩
  | decimal d =>
    cases d with
    | finite negative coefficient exponent =>
      have hread : readNumber true (.text (String.ofList (Decimal.text (.finite negative
          coefficient exponent)))) = .ok (.decimal (.finite negative coefficient exponent)) :=
        readNumber_text h
      exact ⟨hread, nofun, fun _ => hread, nofun⟩
    | _ => exact absurd h Bool.false_ne_true
  | text s => exact ⟨rfl, fun _ => rfl, nofun, nofun⟩
  | bytes kind data =>
    cases kind with
    | fixed => exact ⟨rfl, nofun, nofun, fun _ => rfl⟩
    | _ => exact absurd h Bool.false_ne_true
  | _ => exact absurd h Bool.false_ne_true

/-! ## The round trip in decimal mode -/

/-- When numbers are read as decimals, a value without an integer of too many digits comes back from
its wire value with each integer as a decimal and each decimal with its sign, its coefficient and
its exponent. Any other value is a fault to write. -/
theorem fromWire_toWire_of_isExact (v : Value) (h : v.isExact = true) :
    (v.isWritable = true →
      ∃ w, v.toWire = .ok w ∧ fromWire true w.toValue = .ok (v.mapScalars asDecimal)) ∧
    (v.isWritable = false → v.toWire = .error .badValue) := by
  constructor
  · exact exists_toWire readsBack_of_isExactScalar h
  · exact toWire_of_not_isWritable

/-- Decimals on both sides of the two bounds of plain notation, zeros with a sign and with an
exponent, and an integer beside a decimal in a number set. -/
def mixedDecimals : Value :=
  .map [(.text "zeros", .list [.decimal (.finite true 0 0), .decimal (.finite false 0 (-7)),
      .decimal (.finite true 0 3)]),
    (.text "bounds", .list [.decimal (.finite false 1 (-6)), .decimal (.finite false 1 (-7)),
      .decimal (.finite true 1500 (-2)), .decimal (.finite false 12 1), .int (-10)]),
    (.text "mixed", .list [.int 0, .bool true, .list [.decimal (.finite false 105 (-1)), .null]]),
    (.text "", .bytes .fixed [0, 255])]

theorem fromWire_toWire_mixedDecimals :
    mixedDecimals.isExact = true ∧ mixedDecimals.isWritable = true ∧
      ∃ w, mixedDecimals.toWire = .ok w ∧
        fromWire true w.toValue = .ok (mixedDecimals.mapScalars asDecimal) :=
  have h : mixedDecimals.isExact = true := by decide +kernel
  have hw : mixedDecimals.isWritable = true := by decide +kernel
  ⟨h, hw, (fromWire_toWire_of_isExact mixedDecimals h).1 hw⟩

/-- A number set of a decimal and an integer with too many digits has no wire value. -/
theorem not_fromWire_toWire_of_isExact :
    let numbers := Value.list [.decimal (.finite true 5 (-1)), .int (Nat.pow 10 Number.maxDigits)]
    numbers.isExact = true ∧ ¬∃ w, numbers.toWire = .ok w := by
  intro numbers
  have hrange : Decimal.inRange 5 (-1) = true := by decide +kernel
  refine ⟨?_, ?_⟩
  · show (Decimal.inRange 5 (-1) && true) = true
    rw [hrange]
    rfl
  · rintro ⟨w, hw⟩
    have hdigits : (true && (Number.isWritable (Nat.pow 10 Number.maxDigits : Nat) && true)) =
        true := (toWire_eq_ok_iff.mp hw).1
    rw [Number.isWritable_pow] at hdigits
    cases hdigits

end Value

end ItemStore
