import ItemStore.Proofs.Number.Scripts
import ItemStore.Proofs.Number.Shortest
import ItemStore.Proofs.Wire.Rewritten

/-
  What is stored is well formed. A wire value is a map with one entry under one of the ten tags,
  with a payload of the tag's own kind; sets are not empty, attributes have distinct names that are
  texts, and numbers are written as numerals (`Formed`). Whatever value is written, mixed, nested or
  not finite, the result is well formed, its tag is that of the value's shape, and it is read back
  in both number modes (`formed_toWire`). The link between the writers of numbers and the two
  readers is the numeral: every number is written as one (`exists_numeral`), and the readers say
  which ones they take (`exists_readNumber`).

  Integers have a limit of digits. One beyond it is a fault to write (`not_formed_toWire`), and a
  decimal that is written without point and exponent is a fault to read in default mode if it has
  more digits (`isShort`). Decimals have a range, and the decimals and binary64 numbers that are out
  of it do not exist (`isSized`).
-/

namespace ItemStore

open Number (Binary64 Decimal Numeral)

/-! ## Reading numerals -/

namespace Number.Numeral

open Text (ne_of_class)
open Value (isFractional toPlainNumber toDecimal readNumber)

/-! ## Which numerals are fractional -/

theorem not_isFractionChar {c : Char} (h : isPlainDigit c = true) :
    (c == '.' || c == 'e' || c == 'E') = false := by
  simp only [Bool.or_eq_false_iff, beq_eq_false_iff_ne]
  exact ⟨⟨ne_of_class h (by decide), ne_of_class h (by decide)⟩, ne_of_class h (by decide)⟩

/-- A numeral has a fraction or an exponent just if a point or a letter is among its characters. -/
theorem isFractional_shown (n : Numeral) : isFractional n.shown = !n.isWhole := by
  have hsign : (Decimal.signText n.negative).any
      (fun c => c == '.' || c == 'e' || c == 'E') = false := by
    cases n.negative <;> rfl
  have hdigits : ∀ {ds : List Char}, (∀ c ∈ ds, isPlainDigit c = true) →
      ds.any (fun c => c == '.' || c == 'e' || c == 'E') = false := by
    intro ds hd
    rw [List.any_eq_false]
    intro c hc
    rw [not_isFractionChar (hd c hc)]
    exact Bool.false_ne_true
  have hfraction : (fractionText n.fraction).any
      (fun c => c == '.' || c == 'e' || c == 'E') = !n.fraction.isEmpty := by
    unfold fractionText
    cases n.fraction <;> rfl
  have hpower : (powerText n.power).any
      (fun c => c == '.' || c == 'e' || c == 'E') = !n.power.isNone := by
    cases n.power with
    | none => rfl
    | some p =>
      show (((if p.upper then 'E' else 'e') :: _).any _) = true
      cases p.upper <;> rfl
  rw [isFractional, shown, String.toList_ofList, text, body, List.any_append, List.any_append,
    List.any_append, hsign, hdigits n.whole_digits, hfraction, hpower, isWhole, Bool.not_and,
    Bool.false_or, Bool.false_or]

/-- What default reading makes of a numeral. -/
def plain (n : Numeral) : Value :=
  if n.isWhole then .int n.integer else .float (.ofDecimal n.negative n.coefficient n.exponent)

theorem IsWritten.isFractional_eq {n : Numeral} {cs : List Char} (h : n.IsWritten cs) :
    isFractional (String.ofList cs) = !n.isWhole := by
  rw [← n.isFractional_shown, isFractional, isFractional, shown, String.toList_ofList,
    String.toList_ofList, ← h.plainDigits_eq, any_plainDigits]

/-- Default reading takes a numeral, in digits of any script, for an integer, if it is short enough
for one, or for a binary64 number. -/
theorem IsWritten.readNumber_plain {n : Numeral} {cs : List Char} (h : n.IsWritten cs)
    (hshort : n.IsShort) : readNumber false (.text (String.ofList cs)) = .ok n.plain := by
  have hplain : toPlainNumber (.text (String.ofList cs)) = .ok n.plain := by
    rw [toPlainNumber, h.isFractional_eq, String.toList_ofList, plain]
    cases hwhole : n.isWhole with
    | true =>
      rw [Bool.not_true, if_neg Bool.false_ne_true, h.readInt?_eq hwhole, if_pos (hshort hwhole)]
      rfl
    | false =>
      rw [Bool.not_false, if_pos rfl, h.readBinary64?_eq]
      rfl
  rw [readNumber, hplain]
  rfl

/-- What is too long for an integer is told. -/
theorem IsWritten.readNumber_long {n : Numeral} {cs : List Char} (h : n.IsWritten cs)
    (hlong : ¬n.IsShort) : readNumber false (.text (String.ofList cs)) =
      .error (.marshal ("Invalid number payload: " ++ Value.quoted (.text (String.ofList cs)))
        (Wire.tagged .n (.text (String.ofList cs))) (some (.fault .badValue))) := by
  rw [IsShort, Classical.not_imp] at hlong
  have hplain : toPlainNumber (.text (String.ofList cs)) = .error .badValue := by
    rw [toPlainNumber, h.isFractional_eq, String.toList_ofList, hlong.1, Bool.not_true,
      if_neg Bool.false_ne_true, h.readInt?_eq hlong.1, if_neg hlong.2]
    rfl
  rw [readNumber, hplain]
  rfl

/-- Decimal reading takes every numeral that decimals reach, in digits of any script, for the
decimal with its sign, coefficient and exponent. -/
theorem IsWritten.readNumber_decimal {n : Numeral} {cs : List Char} (h : n.IsWritten cs)
    (hrange : n.InRange) : readNumber true (.text (String.ofList cs)) =
      .ok (.decimal (.finite n.negative n.coefficient n.exponent)) := by
  have hdecimal : toDecimal (.text (String.ofList cs)) =
      .ok (.finite n.negative n.coefficient n.exponent) := by
    rw [toDecimal, String.toList_ofList, h.readDecimal?_eq hrange]
    rfl
  rw [readNumber, if_pos rfl, hdecimal]
  rfl

/-- Whether a mode of reading numbers takes a numeral. -/
def IsTaken (decimalNumbers : Bool) (n : Numeral) : Prop :=
  if decimalNumbers then n.InRange else n.IsShort

theorem exists_readNumber {decimalNumbers : Bool} {n : Numeral} (h : n.IsTaken decimalNumbers) :
    ∃ x, readNumber decimalNumbers (.text n.shown) = .ok x := by
  cases decimalNumbers with
  | false => exact ⟨_, n.isWritten_text.readNumber_plain h⟩
  | true => exact ⟨_, n.isWritten_text.readNumber_decimal h⟩

end Number.Numeral

/-! ## Well-formed wire values -/

/-- The tag that values of a shape are stored under. -/
def Shape.tag : Shape → Tag
  | .text | .timestamp => .s
  | .number => .n
  | .boolean => .bool
  | .null | .unsupported => .null
  | .binary => .b
  | .map => .m
  | .list => .l
  | .textSet => .ss
  | .numberSet => .ns
  | .binarySet => .bs

/-- A map with one entry, under a tag and with a payload of the tag's kind, in which all numbers are
numerals of a class. -/
inductive Formed (P : Numeral → Prop) : Value → Prop
  | s (t : String) : Formed P (Wire.tagged .s (.text t))
  | n {x : Numeral} (hx : P x) : Formed P (Wire.tagged .n (.text x.shown))
  | bool (flag : Bool) : Formed P (Wire.tagged .bool (.bool flag))
  | null : Formed P (Wire.tagged .null (.bool true))
  | b (data : List UInt8) : Formed P (Wire.tagged .b (.bytes .fixed data))
  | m {fields : Params} (hnames : (fields.map Prod.fst).Nodup)
      (hfields : ∀ e ∈ fields, Formed P e.2) :
    Formed P (Wire.tagged .m (.record fields))
  | l {elements : List Value} (helements : ∀ x ∈ elements, Formed P x) :
    Formed P (Wire.tagged .l (.list elements))
  | ss {texts : List String} (hne : texts ≠ []) :
    Formed P (Wire.tagged .ss (.list (texts.map .text)))
  | ns {numbers : List Numeral} (hne : numbers ≠ []) (hnumbers : ∀ x ∈ numbers, P x) :
    Formed P (Wire.tagged .ns (.list (numbers.map fun x => .text x.shown)))
  | bs {parts : List (List UInt8)} (hne : parts ≠ []) :
    Formed P (Wire.tagged .bs (.list (parts.map (.bytes .fixed))))

namespace Value

variable {P : Numeral → Prop}

/-! ## Reading -/

section

variable {decimalNumbers : Bool}

theorem exists_fromWireAll_of_forall {xs : List Value}
    (h : ∀ x ∈ xs, ∃ y, fromWire decimalNumbers x = .ok y) :
    ∃ ys, fromWireAll decimalNumbers xs = .ok ys := by
  induction xs with
  | nil => exact ⟨[], rfl⟩
  | cons x xs ih =>
    rw [List.forall_mem_cons] at h
    obtain ⟨y, hy⟩ := h.1
    obtain ⟨ys, hys⟩ := ih h.2
    refine ⟨y :: ys, ?_⟩
    rw [fromWireAll, hy, hys]
    rfl

theorem exists_fromWireFields_of_forall {fields : Params}
    (h : ∀ e ∈ fields, ∃ y, fromWire decimalNumbers e.2 = .ok y) :
    ∃ es, fromWireFields decimalNumbers (fields.map fun f => (.text f.1, f.2)) = .ok es := by
  induction fields with
  | nil => exact ⟨[], rfl⟩
  | cons e fields ih =>
    rw [List.forall_mem_cons] at h
    obtain ⟨y, hy⟩ := h.1
    obtain ⟨es, hes⟩ := ih h.2
    refine ⟨(.text e.1, y) :: es, ?_⟩
    rw [List.map_cons, fromWireFields, hy, hes]
    rfl

theorem exists_readNumbers_of_forall {numbers : List Numeral}
    (h : ∀ x ∈ numbers, x.IsTaken decimalNumbers) :
    ∃ ys, (numbers.map fun x => Value.text x.shown).mapM (readNumber decimalNumbers) = .ok ys := by
  induction numbers with
  | nil => exact ⟨[], rfl⟩
  | cons x numbers ih =>
    rw [List.forall_mem_cons] at h
    obtain ⟨y, hy⟩ := Numeral.exists_readNumber h.1
    obtain ⟨ys, hys⟩ := ih h.2
    refine ⟨y :: ys, ?_⟩
    rw [List.map_cons, List.mapM_cons, hy, hys]
    rfl

/-- A well-formed wire value is read back in a mode that takes its numbers. -/
theorem exists_fromWire_of_formed {w : Value}
    (h : Formed (Numeral.IsTaken decimalNumbers) w) :
    ∃ v, fromWire decimalNumbers w = .ok v := by
  induction h with
  | s t => exact ⟨.text t, rfl⟩
  | n hx => exact Numeral.exists_readNumber hx
  | bool flag => exact ⟨.bool flag, rfl⟩
  | null => exact ⟨.null, rfl⟩
  | b data => exact ⟨.bytes .fixed data, rfl⟩
  | @m fields _ _ ih =>
    obtain ⟨es, hes⟩ := exists_fromWireFields_of_forall ih
    refine ⟨.map es, ?_⟩
    have hopen : fromWire decimalNumbers (Wire.tagged .m (.record fields)) =
        .map <$> fromWireFields decimalNumbers (fields.map fun f => (.text f.1, f.2)) := rfl
    rw [hopen, hes]
    rfl
  | @l elements _ ih =>
    obtain ⟨ys, hys⟩ := exists_fromWireAll_of_forall ih
    refine ⟨.list ys, ?_⟩
    have hopen : fromWire decimalNumbers (Wire.tagged .l (.list elements)) =
        .list <$> fromWireAll decimalNumbers elements := rfl
    rw [hopen, hys]
    rfl
  | ss _ => exact ⟨_, rfl⟩
  | @ns numbers _ hnumbers =>
    obtain ⟨ys, hys⟩ := exists_readNumbers_of_forall hnumbers
    refine ⟨.list ys, ?_⟩
    have hopen : fromWire decimalNumbers
        (Wire.tagged .ns (.list (numbers.map fun x => .text x.shown))) =
        ((numbers.map fun x => Value.text x.shown).mapM (readNumber decimalNumbers) >>= fun ys =>
          pure (.list ys)) := rfl
    rw [hopen, hys]
    rfl
  | bs _ => exact ⟨_, rfl⟩

end

/-! ## Writing -/

/-- Whether decimal reading takes a number as it is written. Of binary64 numbers and decimals these
are all that exist, and of integers all that are written. -/
def isSized : Value → Bool
  | .int n => Number.isWritable n
  | .float x => x.isSized
  | .decimal (.finite _ coefficient exponent) => Decimal.inRange coefficient exponent
  | _ => true

/-- Whether default reading takes a number as it is written. A decimal without an exponent may have
more digits than integers have, and it is no integer then. -/
def isShort : Value → Bool
  | .int n => Number.isWritable n
  | .decimal (.finite _ coefficient exponent) =>
    exponent ≠ 0 || (Number.digits coefficient).length ≤ Number.maxDigits
  | _ => true

/-- Whether a mode of reading numbers takes a number as it is written. -/
def isTaken (decimalNumbers : Bool) (x : Value) : Bool :=
  if decimalNumbers then x.isSized else x.isShort

/-- A finite number of any kind is written as a numeral, which a mode takes if it takes the
number. -/
theorem exists_numeral {x : Value} (h : x.scalarShape = .number) :
    ∃ n : Numeral, x.shown = n.shown ∧
      ∀ decimalNumbers, x.isTaken decimalNumbers = true → n.IsTaken decimalNumbers := by
  cases x with
  | int n =>
    obtain ⟨x, htext, hc, he, hwhole⟩ := Decimal.exists_numeral (n < 0) n.natAbs 0
    refine ⟨x, ?_, fun d htaken => ?_⟩
    · rw [Numeral.shown, htext, ← Decimal.ofInt, Decimal.text_ofInt]
      simp [shown, quoted, intText]
    · have hw : Number.isWritable n = true := by cases d <;> exact htaken
      cases d with
      | false =>
        intro hx
        rw [hwhole hx]
        exact of_decide_eq_true hw
      | true =>
        show Decimal.inRange x.coefficient x.exponent = true
        rw [hc, he]
        exact Decimal.inRange_of_isWritable hw
  | float x =>
    cases x with
    | finite negative m q =>
      obtain ⟨n, htext, hwhole, hrange⟩ := Binary64.exists_numeral negative m q
      refine ⟨n, ?_, fun d htaken => ?_⟩
      · rw [Numeral.shown, htext]
        simp [shown, quoted]
      · cases d with
        | false => exact fun hx => absurd hx (Bool.eq_false_iff.mp hwhole)
        | true => exact hrange htaken
    | _ => cases h
  | decimal d =>
    cases d with
    | finite negative coefficient exponent =>
      obtain ⟨n, htext, hc, he, hwhole⟩ := Decimal.exists_numeral negative coefficient exponent
      refine ⟨n, ?_, fun d htaken => ?_⟩
      · rw [Numeral.shown, htext, shown]
      · cases d with
        | false =>
          intro hx
          have hshort : (decide (exponent ≠ 0) ||
              decide ((Number.digits coefficient).length ≤ Number.maxDigits)) = true := htaken
          rw [Bool.or_eq_true, decide_eq_true_eq, decide_eq_true_eq] at hshort
          rw [hwhole hx]
          exact hshort.resolve_left fun hne => hne (he ▸ Numeral.exponent_of_isWhole hx)
        | true =>
          show Decimal.inRange n.coefficient n.exponent = true
          rw [hc, he]
          exact htaken
    | _ => cases h
  | _ => cases h

/-- What is asked of the numbers of a value so that they are written as numerals of a class. -/
def WritesNumbers (p : Value → Bool) (P : Numeral → Prop) : Prop :=
  ∀ x : Value, x.scalarShape = .number → p x = true → ∃ n : Numeral, x.shown = n.shown ∧ P n

/-- The numerals of a number set. -/
theorem exists_numerals {p : Value → Bool} (hP : WritesNumbers p P) {xs : List Value}
    (h : ∀ x ∈ xs, x.scalarShape = .number) (hp : ∀ x ∈ xs, p x = true) :
    ∃ numbers : List Numeral, xs.map shown = numbers.map Numeral.shown ∧ ∀ n ∈ numbers, P n := by
  induction xs with
  | nil => exact ⟨[], rfl, List.forall_mem_nil _⟩
  | cons x xs ih =>
    rw [List.forall_mem_cons] at h hp
    obtain ⟨n, hshown, hn⟩ := hP x h.1 hp.1
    obtain ⟨numbers, hmap, hall⟩ := ih h.2 hp.2
    refine ⟨n :: numbers, ?_, List.forall_mem_cons.mpr ⟨hn, hall⟩⟩
    rw [List.map_cons, List.map_cons, hshown, hmap]

theorem toValueFields_eq_map (fields : List (String × Wire)) :
    Wire.toValueFields fields =
      (fields.map (Prod.map id Wire.toValue)).map fun f => (.text f.1, f.2) := by
  induction fields with
  | nil => rfl
  | cons e fields ih =>
    rw [Wire.toValueFields, ih]
    rfl

theorem ne_nil_of_sequenceShape {xs : List Value} (h : sequenceShape xs ≠ .list) : xs ≠ [] := by
  rintro rfl
  exact h rfl

/-- The wire form of a set has the texts, numerals or bytes of its elements. -/
theorem formed_setForm {xs : List Value} (hne : xs ≠ []) :
    Formed P (setForm .textSet xs).toValue ∧ Formed P (setForm .binarySet xs).toValue := by
  constructor
  · exact .ss fun h => hne (List.map_eq_nil_iff.mp h)
  · exact .bs fun h => hne (List.map_eq_nil_iff.mp h)

theorem formed_numberSet {p : Value → Bool} (hP : WritesNumbers p P) {xs : List Value}
    (hne : xs ≠ []) (h : ∀ x ∈ xs, x.scalarShape = .number) (hp : ∀ x ∈ xs, p x = true) :
    Formed P (setForm .numberSet xs).toValue := by
  obtain ⟨numbers, hmap, hnumbers⟩ := exists_numerals hP h hp
  have hnumbers_ne : numbers ≠ [] := by
    rintro rfl
    exact hne (List.map_eq_nil_iff.mp hmap)
  have htexts : (xs.map shown).map Value.text = numbers.map fun n => .text n.shown := by
    rw [hmap, List.map_map]
    rfl
  show Formed P (Wire.tagged .ns (.list ((xs.map shown).map .text)))
  rw [htexts]
  exact .ns hnumbers_ne hnumbers

/-- A number is stored under its tag if it is finite, else as null. -/
theorem formed_of_number {p : Value → Bool} (hP : WritesNumbers p P) {x : Value}
    (hx : x.wireForm = .n x.shown ∧ x.scalarShape = .number ∨ x.wireForm = .null)
    (hp : p x = true) : Formed P x.wireForm.toValue := by
  rcases hx with ⟨hwire, hshape⟩ | hwire
  · obtain ⟨n, hshown, hn⟩ := hP x hshape hp
    rw [hwire, hshown]
    exact .n hn
  · rw [hwire]
    exact .null

/-- An element of a set is a scalar. -/
theorem everyScalar_of_number {p : Value → Bool} {x : Value} (hx : x.scalarShape = .number)
    (h : x.everyScalar p = true) : p x = true := by
  cases x <;> first | exact h | cases hx

theorem everyScalar_of_all {p : Value → Bool} {xs : List Value}
    (h : everyScalarAll p xs = true) : ∀ x ∈ xs, x.everyScalar p = true := by
  induction xs with
  | nil => exact List.forall_mem_nil _
  | cons x xs ih =>
    rw [everyScalarAll, Bool.and_eq_true] at h
    exact List.forall_mem_cons.mpr ⟨h.1, ih h.2⟩

section

variable {p : Value → Bool}

mutual

/-- The wire form of a value is well formed, with numerals of a class if the value has numbers that
are written so. -/
theorem formed_toValue (hP : WritesNumbers p P) :
    ∀ v : Value, v.everyScalar p = true → Formed P v.wireForm.toValue
  | .seq kind xs, h => by
    have hall := formed_toValueAll hP xs h
    rw [wireForm]
    rcases sequenceShape_cases xs with hx | ⟨hx, -⟩ | ⟨hx, hs⟩ | ⟨hx, -⟩ <;> rw [hx]
    · exact .l hall
    · exact (formed_setForm (ne_nil_of_sequenceShape (by rw [hx]; decide))).1
    · exact formed_numberSet hP (ne_nil_of_sequenceShape (by rw [hx]; decide)) hs
        fun x hmem => everyScalar_of_number (hs x hmem) (everyScalar_of_all h x hmem)
    · exact (formed_setForm (ne_nil_of_sequenceShape (by rw [hx]; decide))).2
  | .map es, h => by
    have hfields : ∀ e ∈ Entries.ofPairs (wireFormFields es), Formed P e.2.toValue :=
      Entries.forall_mem_ofPairs (P := fun w : Wire => Formed P w.toValue)
        (formed_toValueFields hP es h)
    have hnames := Entries.nodup_ofPairs (wireFormFields es)
    rw [wireForm, Wire.toValue, toValueFields_eq_map]
    refine .m ?_ (List.forall_mem_map.mpr hfields)
    rw [List.map_map]
    exact hnames
  | .int n, h => by
    refine formed_of_number hP (.inl ⟨?_, rfl⟩) h
    simp [wireForm, shown, quoted]
  | .float x, h => by
    refine formed_of_number hP ?_ h
    rw [wireForm, scalarShape]
    split
    · exact .inl ⟨by simp [shown, quoted], rfl⟩
    · exact .inr rfl
  | .decimal d, h => by
    refine formed_of_number hP ?_ h
    rw [wireForm, scalarShape]
    split
    · exact .inl ⟨by rw [shown], rfl⟩
    · exact .inr rfl
  | .null, _ | .foreign, _ => .null
  | .bool flag, _ => .bool flag
  | .text s, _ => .s s
  | .bytes _ data, _ => .b data
  | .date d, _ => .s d.isoText
  | .timestamp t, _ => .s (t.isoText "T")

theorem formed_toValueAll (hP : WritesNumbers p P) :
    ∀ xs : List Value, everyScalarAll p xs = true →
      ∀ x ∈ Wire.toValueAll (wireFormAll xs), Formed P x
  | [], _ => List.forall_mem_nil _
  | x :: xs, h => by
    rw [everyScalarAll, Bool.and_eq_true] at h
    exact List.forall_mem_cons.mpr ⟨formed_toValue hP x h.1, formed_toValueAll hP xs h.2⟩

theorem formed_toValueFields (hP : WritesNumbers p P) :
    ∀ es : List (Value × Value), everyScalarFields p es = true →
      ∀ e ∈ wireFormFields es, Formed P e.2.toValue
  | [], _ => List.forall_mem_nil _
  | (_, x) :: es, h => by
    rw [everyScalarFields, Bool.and_eq_true] at h
    exact List.forall_mem_cons.mpr ⟨formed_toValue hP x h.1, formed_toValueFields hP es h.2⟩

end

end

mutual

theorem everyScalar_true : ∀ v : Value, v.everyScalar (fun _ => true) = true
  | .seq _ xs => everyScalarAll_true xs
  | .map es => everyScalarFields_true es
  | .null | .bool _ | .int _ | .float _ | .decimal _ | .text _ | .bytes _ _ | .date _
  | .timestamp _ | .foreign => rfl

theorem everyScalarAll_true : ∀ xs : List Value, everyScalarAll (fun _ => true) xs = true
  | [] => rfl
  | x :: xs => Bool.and_eq_true_iff.mpr ⟨everyScalar_true x, everyScalarAll_true xs⟩

theorem everyScalarFields_true :
    ∀ es : List (Value × Value), everyScalarFields (fun _ => true) es = true
  | [] => rfl
  | (_, x) :: es => Bool.and_eq_true_iff.mpr ⟨everyScalar_true x, everyScalarFields_true es⟩

end

/-- The tag that a value is stored under is that of its shape. -/
theorem exists_tagged (v : Value) :
    ∃ payload, v.wireForm.toValue = Wire.tagged v.shape.tag payload := by
  cases v with
  | float x =>
    show ∃ payload, (float x).wireForm.toValue = Wire.tagged (float x).scalarShape.tag payload
    rw [wireForm, scalarShape]
    split <;> exact ⟨_, rfl⟩
  | decimal d =>
    show ∃ payload, (decimal d).wireForm.toValue = Wire.tagged (decimal d).scalarShape.tag payload
    rw [wireForm, scalarShape]
    split <;> exact ⟨_, rfl⟩
  | seq kind xs =>
    rw [wireForm, shape]
    rcases sequenceShape_cases xs with hx | ⟨hx, -⟩ | ⟨hx, -⟩ | ⟨hx, -⟩ <;> rw [hx] <;>
      exact ⟨_, rfl⟩
  | _ => exact ⟨_, by rw [wireForm]; rfl⟩

/-! ## Every value -/

/-- A value is a fault to write if one of its integers has too many digits. Any other is stored in a
well-formed way, under the tag of its shape, and what is stored is read in each number mode that
takes its numbers as they are written. -/
theorem formed_toWire (v : Value) :
    (v.isWritable = false → v.toWire = .error .badValue) ∧
    (v.isWritable = true → ∃ w, v.toWire = .ok w ∧
      (∃ payload, w.toValue = Wire.tagged v.shape.tag payload) ∧
      Formed (fun _ => True) w.toValue ∧
      ∀ decimalNumbers, v.everyScalar (isTaken decimalNumbers) = true →
        Formed (Numeral.IsTaken decimalNumbers) w.toValue ∧
          ∃ u, fromWire decimalNumbers w.toValue = .ok u) := by
  refine ⟨toWire_of_not_isWritable, fun hw => ⟨v.wireForm, toWire_of_isWritable hw,
    v.exists_tagged, ?_, fun d htaken => ?_⟩⟩
  · have hall : WritesNumbers (fun _ => true) fun _ => True := by
      intro x hx _
      obtain ⟨n, hshown, -⟩ := exists_numeral hx
      exact ⟨n, hshown, trivial⟩
    exact formed_toValue hall v v.everyScalar_true
  · have hnumbers : WritesNumbers (isTaken d) (Numeral.IsTaken d) := by
      intro x hx hp
      obtain ⟨n, hshown, hn⟩ := exists_numeral hx
      exact ⟨n, hshown, hn d hp⟩
    have hformed := formed_toValue hnumbers v htaken
    exact ⟨hformed, exists_fromWire_of_formed hformed⟩

/-- Numbers of three kinds in a set, numbers that are not finite, kinds that cannot be stored,
mixed sequences in sequences and keys of any kind. -/
def mixedShapes : Value :=
  .map [(.int 1, .list [.int (-7), .float (.finite false 1 (-1)), .decimal (.finite true 15 20)]),
    (.text "1", .seq .tuple [.float .nan, .decimal (.nan true false 3), .foreign, .list []]),
    (.seq .tuple [.null], .seq .set [.bytes .buffer [1], .bytes .view [0, 255]]),
    (.bool true, .list [.list [.text "a", .null, .seq .frozenSet [.text "b"]], .bool false]),
    (.float (.infinity true), .map [(.null, .decimal (.infinity false)), (.foreign, .map [])])]

theorem formed_toWire_mixedShapes :
    mixedShapes.isWritable = true ∧ ∃ w, mixedShapes.toWire = .ok w ∧
      ∀ decimalNumbers, mixedShapes.everyScalar (isTaken decimalNumbers) = true ∧
        Formed (Numeral.IsTaken decimalNumbers) w.toValue ∧
          ∃ u, fromWire decimalNumbers w.toValue = .ok u :=
  have hw : mixedShapes.isWritable = true := by decide +kernel
  have htaken : ∀ d, mixedShapes.everyScalar (isTaken d) = true := by decide +kernel
  have ⟨w, hwire, _, _, hread⟩ := (formed_toWire mixedShapes).2 hw
  ⟨hw, w, hwire, fun d => ⟨htaken d, hread d (htaken d)⟩⟩

/-- A map with a number of too many digits as a key has no wire value. -/
theorem not_formed_toWire :
    ¬∃ w, toWire (.map [(.int (Nat.pow 10 Number.maxDigits), .null)]) = .ok w := by
  rintro ⟨w, hw⟩
  have hdigits : (Number.isWritable (Nat.pow 10 Number.maxDigits : Nat) && true && true) = true :=
    (toWire_eq_ok_iff.mp hw).1
  rw [Number.isWritable_pow] at hdigits
  cases hdigits

end Value

end ItemStore
