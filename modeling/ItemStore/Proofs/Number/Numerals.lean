import ItemStore.Proofs.Number.Decimals

/-
  The texts of finite numbers. A numeral is a sign where it is negative, digits, a fraction if it
  has one and an exponent if it has one (`Numeral`); the number that it writes is a coefficient
  and a power of ten. Integers, decimals and binary64 numbers are all written so
  (`Decimal.exists_numeral`, `Binary64.exists_numeral`), and every numeral is read, in digits of
  any script (`IsWritten`):

  * a numeral with a fraction or an exponent as a binary64 number, whatever its size, and any other
    as an integer, if it has few enough digits for one (`IsShort`, `IsWritten.readNumber_plain`);
  * as a decimal, sign, coefficient and exponent kept, if these are in the range of decimals
    (`IsWritten.readNumber_decimal`).

  Which digits a binary64 number is written with is not needed for that. All that is proved of
  them is a bound, which puts the number in the range of decimals (`inRange_of_isBounded`).
-/

namespace ItemStore.Number

open Text

/-! ## Numerals -/

/-- An exponent of a numeral. Its sign is always written. -/
structure Power where
  upper : Bool
  negative : Bool
  size : List Char
  size_ne : size ≠ []
  size_digits : ∀ c ∈ size, isPlainDigit c = true

namespace Power

def text (p : Power) : List Char :=
  (if p.upper then 'E' else 'e') :: (if p.negative then '-' else '+') :: p.size

def value (p : Power) : Int :=
  if p.negative then -(valueOf p.size : Int) else valueOf p.size

end Power

/-- The text of a finite number, in its parts. A numeral without digits behind the point has no
point. -/
structure Numeral where
  negative : Bool
  whole : List Char
  fraction : List Char
  power : Option Power
  whole_ne : whole ≠ []
  whole_digits : ∀ c ∈ whole, isPlainDigit c = true
  fraction_digits : ∀ c ∈ fraction, isPlainDigit c = true

namespace Numeral

/-- A fraction with its point. -/
def fractionText (ds : List Char) : List Char :=
  if ds = [] then [] else '.' :: ds

/-- What stands behind the fraction. -/
def powerText (p : Option Power) : List Char :=
  p.elim [] Power.text

def powerValue (p : Option Power) : Int :=
  p.elim 0 Power.value

/-- A numeral without its sign. -/
def body (n : Numeral) : List Char :=
  n.whole ++ (fractionText n.fraction ++ powerText n.power)

def text (n : Numeral) : List Char :=
  Decimal.signText n.negative ++ n.body

def shown (n : Numeral) : String :=
  String.ofList n.text

/-- The digits as one number. -/
def coefficient (n : Numeral) : Nat :=
  valueOf (n.whole ++ n.fraction)

/-- The power of ten that the coefficient is multiplied with. -/
def exponent (n : Numeral) : Int :=
  powerValue n.power - n.fraction.length

/-- Whether the number is one that decimals have. -/
def InRange (n : Numeral) : Prop :=
  Decimal.inRange n.coefficient n.exponent = true

/-- Whether there is neither a fraction nor an exponent. -/
def isWhole (n : Numeral) : Bool :=
  n.fraction.isEmpty && n.power.isNone

/-! ## The characters of a numeral -/

/-- The characters that numerals are written with. -/
def chars : List Char :=
  ['e'] ++ decimalChars

theorem mem_chars_of_isPlainDigit {c : Char} (h : isPlainDigit c = true) : c ∈ chars := by
  rw [isPlainDigit, Bool.and_eq_true, decide_eq_true_eq, decide_eq_true_eq] at h
  obtain ⟨hlow, hhigh⟩ := h
  have hlow : 48 ≤ c.toNat := UInt32.le_iff_toNat_le.mp hlow
  have hhigh : c.toNat ≤ 57 := UInt32.le_iff_toNat_le.mp hhigh
  have hdigit : c = digitChar (c.toNat - 48) := by
    rw [digitChar, Nat.add_sub_cancel' hlow, Char.ofNat_toNat]
  rw [hdigit]
  exact List.mem_append_right _
    (List.mem_append_left _ (digitChar_mem_integerChars (by omega)))

theorem forall_mem_powerText (p : Option Power) : ∀ c ∈ powerText p, c ∈ chars := by
  cases p with
  | none => exact List.forall_mem_nil _
  | some p =>
    show ∀ c ∈ p.text, c ∈ chars
    rw [Power.text, List.forall_mem_cons, List.forall_mem_cons]
    refine ⟨?_, ?_, fun c hc => mem_chars_of_isPlainDigit (p.size_digits c hc)⟩
    · split <;> decide
    · split <;> decide

theorem forall_mem_fractionText {ds : List Char} (h : ∀ c ∈ ds, isPlainDigit c = true) :
    ∀ c ∈ fractionText ds, c ∈ chars := by
  unfold fractionText
  split
  · exact List.forall_mem_nil _
  · rw [List.forall_mem_cons]
    exact ⟨by decide, fun c hc => mem_chars_of_isPlainDigit (h c hc)⟩

theorem forall_mem_text (n : Numeral) : ∀ c ∈ n.text, c ∈ chars := by
  have hsign : ∀ c ∈ Decimal.signText n.negative, c ∈ chars :=
    fun c hc => List.mem_append_right _ (Decimal.forall_mem_signText n.negative c hc)
  refine List.forall_mem_append.mpr ⟨hsign, List.forall_mem_append.mpr ⟨?_, ?_⟩⟩
  · exact fun c hc => mem_chars_of_isPlainDigit (n.whole_digits c hc)
  · exact List.forall_mem_append.mpr
      ⟨forall_mem_fractionText n.fraction_digits, forall_mem_powerText n.power⟩

theorem isBlank_eq_false : ∀ c ∈ chars, isBlank c = false :=
  forall_mem_of_all (by decide)

theorem ne_underscore : ∀ c ∈ chars, c ≠ '_' :=
  forall_mem_of_all (by decide)

theorem plainDigits_singleton : ∀ c ∈ chars, plainDigits [c] = [c] :=
  forall_mem_of_all (by decide)

theorem plainDigits_text (n : Numeral) : plainDigits n.text = n.text :=
  plainDigits_eq_self fun c hc => plainDigits_singleton c (n.forall_mem_text c hc)

/-- A text that is a numeral once its digits are in ASCII, without white space and underscores. -/
structure IsWritten (n : Numeral) (cs : List Char) : Prop where
  isBlank_of_mem : ∀ c ∈ cs, isBlank c = false
  ne_of_mem : ∀ c ∈ cs, c ≠ '_'
  plainDigits_eq : plainDigits cs = n.text

theorem isWritten_text (n : Numeral) : n.IsWritten n.text where
  isBlank_of_mem := fun c hc => isBlank_eq_false c (n.forall_mem_text c hc)
  ne_of_mem := fun c hc => ne_underscore c (n.forall_mem_text c hc)
  plainDigits_eq := n.plainDigits_text

theorem IsWritten.normalize?_eq {n : Numeral} {cs : List Char} (h : n.IsWritten cs) :
    normalize? cs = some n.text := by
  have hmargin : ∀ c ∈ cs, isMargin c = false := by
    intro c hc
    rw [isMargin, h.isBlank_of_mem c hc, Bool.false_and]
  have hunderscore : ∀ c ∈ n.text, c ≠ '_' := n.isWritten_text.ne_of_mem
  rw [normalize?, trim_of_forall_not hmargin, h.plainDigits_eq, ungroup?_of_forall_ne hunderscore]

/-! ## Reading the parts -/

theorem exponent?_powerText (p : Option Power) : exponent? (powerText p) = some (powerValue p) := by
  cases p with
  | none => rfl
  | some p =>
    show exponent? p.text = some p.value
    have hnatural := natural?_eq_some_iff.mpr ⟨p.size_ne, p.size_digits, rfl⟩
    rw [Power.text, Power.value]
    cases p.upper <;> cases p.negative <;> simp [exponent?, signedNatural?, splitSign, hnatural]

theorem stops_powerText (p : Option Power) :
    Stops isPlainDigit (powerText p) ∧ Stops (· == '.') (powerText p) := by
  cases p with
  | none => exact ⟨stops_nil _, stops_nil _⟩
  | some p =>
    have hletter : powerText (some p) = (if p.upper then 'E' else 'e') :: _ := rfl
    rw [hletter, stops_cons, stops_cons]
    cases p.upper <;> decide

/-- Coefficient and exponent are read off a numeral. -/
theorem scientific?_body (n : Numeral) : scientific? n.body = some (n.coefficient, n.exponent) := by
  have hstops := stops_powerText n.power
  have hpower := exponent?_powerText n.power
  unfold body fractionText coefficient exponent
  by_cases hf : n.fraction = []
  · rw [if_pos hf, hf, List.nil_append, List.append_nil,
      scientific?_run n.whole_ne n.whole_digits hstops.1 hstops.2 hpower]
    simp
  · rw [if_neg hf, List.cons_append,
      scientific?_point (absurd · n.whole_ne) n.whole_digits n.fraction_digits hstops.1 hpower]

/-- A numeral without its sign starts with a digit. -/
theorem exists_cons_of_body (n : Numeral) :
    ∃ d cs, n.body = d :: cs ∧ isPlainDigit d = true := by
  cases hw : n.whole with
  | nil => exact absurd hw n.whole_ne
  | cons d ds =>
    have hd := n.whole_digits d (by rw [hw]; exact List.mem_cons_self)
    exact ⟨d, _, by rw [body, hw, List.cons_append], hd⟩

theorem splitSign_text (n : Numeral) : splitSign n.text = (n.negative, n.body) := by
  obtain ⟨d, cs, hbody, hd⟩ := n.exists_cons_of_body
  rw [text, hbody, Decimal.splitSign_signText hd]

/-! ## Reading a numeral -/

theorem IsWritten.readBinary64?_eq {n : Numeral} {cs : List Char} (h : n.IsWritten cs) :
    readBinary64? cs = some (.ofDecimal n.negative n.coefficient n.exponent) := by
  obtain ⟨d, ds, hbody, hd⟩ := n.exists_cons_of_body
  have hread := n.scientific?_body
  have hlead := Decimal.isLeading_of_isPlainDigit hd
  have hinf : isWordOf "inf" (d :: ds) = false :=
    Decimal.isWordOf_of_isLeading ds hlead (by decide +kernel)
  have hinfinity : isWordOf "infinity" (d :: ds) = false :=
    Decimal.isWordOf_of_isLeading ds hlead (by decide +kernel)
  have hnan : isWordOf "nan" (d :: ds) = false :=
    Decimal.isWordOf_of_isLeading ds hlead (by decide +kernel)
  rw [hbody] at hread
  rw [readBinary64?, h.normalize?_eq]
  simp only [n.splitSign_text, hbody, isInfinity, hinf, hinfinity, hnan, hread, Bool.or_self,
    Bool.false_eq_true, if_false, Option.map_some]

/-- The integer that a numeral without fraction and exponent writes. -/
def integer (n : Numeral) : Int :=
  if n.negative then -(n.coefficient : Int) else n.coefficient

theorem body_of_isWhole {n : Numeral} (h : n.isWhole = true) :
    n.body = n.whole ∧ n.coefficient = valueOf n.whole := by
  rw [isWhole, Bool.and_eq_true, List.isEmpty_iff, Option.isNone_iff_eq_none] at h
  rw [body, coefficient, fractionText, h.1, h.2, if_pos rfl, List.append_nil]
  exact ⟨List.append_nil _, rfl⟩

theorem exponent_of_isWhole {n : Numeral} (h : n.isWhole = true) : n.exponent = 0 := by
  rw [isWhole, Bool.and_eq_true, List.isEmpty_iff, Option.isNone_iff_eq_none] at h
  rw [exponent, h.1, h.2]
  rfl

/-- A numeral without fraction and exponent is read as an integer, if it is not too long for one. -/
theorem IsWritten.readInt?_eq {n : Numeral} {cs : List Char} (h : n.IsWritten cs)
    (hwhole : n.isWhole = true) :
    readInt? cs = if n.whole.length ≤ maxDigits then some n.integer else none := by
  obtain ⟨hbody, hvalue⟩ := body_of_isWhole hwhole
  have hnatural := natural?_eq_some_iff.mpr ⟨n.whole_ne, n.whole_digits, rfl⟩
  have hsigned : signedNatural? n.text = some n.integer := by
    simp only [signedNatural?, n.splitSign_text, hbody, hnatural, Option.map_some, integer, hvalue]
  rw [readInt?, h.normalize?_eq]
  simp only [n.splitSign_text, hbody, hsigned]

/-- Whether a numeral has few enough digits for an integer, if it would be one. -/
def IsShort (n : Numeral) : Prop :=
  n.isWhole = true → n.whole.length ≤ maxDigits

/-- A numeral of which the number is in the range of decimals is read as a decimal. -/
theorem IsWritten.readDecimal?_eq {n : Numeral} {cs : List Char} (h : n.IsWritten cs)
    (hrange : n.InRange) :
    readDecimal? cs = some (.finite n.negative n.coefficient n.exponent) := by
  have hfilter : cs.filter (· ≠ '_') = cs :=
    List.filter_eq_self.mpr fun c hc => decide_eq_true (h.ne_of_mem c hc)
  obtain ⟨d, ds, hbody, hd⟩ := n.exists_cons_of_body
  have hread := n.scientific?_body
  rw [hbody] at hread
  rw [readDecimal?, trim_of_forall_not h.isBlank_of_mem, hfilter, h.plainDigits_eq,
    n.splitSign_text, hbody]
  have hlead := Decimal.isLeading_of_isPlainDigit hd
  exact (Decimal.unsignedDecimal?_of_isLeading n.negative hlead hread).trans (if_pos hrange)

/-! ## Numbers in the range of decimals -/

/-- How far a numeral reaches: its digits and its power. -/
def size (n : Numeral) : Nat :=
  n.whole.length + n.fraction.length + (powerValue n.power).natAbs

/-- A numeral has to be long, or its exponent large, to be out of the range of decimals. -/
theorem inRange_of_size {n : Numeral} (h : n.size ≤ 999999999999999999) : n.InRange := by
  have hne : 0 < (n.whole ++ n.fraction).length := by
    rw [List.length_append]
    exact Nat.add_pos_left (List.length_pos_iff.mpr n.whole_ne) _
  have hlength : (digits n.coefficient).length ≤ n.whole.length + n.fraction.length := by
    rw [← List.length_append]
    exact length_digits_le hne (valueOf_lt _)
  unfold size at h
  unfold InRange exponent Decimal.inRange Decimal.minExponent Decimal.maxExponent
  rw [Bool.and_eq_true, decide_eq_true_eq, decide_eq_true_eq]
  constructor
  · omega
  · split <;> omega

end Numeral

/-! ## Written decimals -/

section

variable (negative : Bool) {ds : List Char} (hne : ds ≠ [])
  (hd : ∀ c ∈ ds, isPlainDigit c = true)

include hne hd

/-- Zeros in front of digits, behind a point. -/
theorem exists_numeral_zeros (k : Nat) :
    ∃ n : Numeral, n.negative = negative ∧ n.isWhole = false ∧
      n.size = 1 + (k + ds.length) ∧ n.body = '0' :: '.' :: (List.replicate k '0' ++ ds) := by
  have hzeros : ∀ c ∈ List.replicate k '0' ++ ds, isPlainDigit c = true := by
    refine List.forall_mem_append.mpr ⟨fun c hc => ?_, hd⟩
    rw [List.eq_of_mem_replicate hc]
    decide
  refine ⟨⟨negative, ['0'], List.replicate k '0' ++ ds, none, List.cons_ne_nil _ _,
    forall_mem_of_all (by decide), hzeros⟩, rfl, ?_, ?_, ?_⟩
  · simp [Numeral.isWhole, hne]
  · simp [Numeral.size, Numeral.powerValue]
  · simp [Numeral.body, Numeral.fractionText, Numeral.powerText, hne]

/-- Digits with a point among them. -/
theorem exists_numeral_split {k : Nat} (hk : k ≠ 0) (hlt : k < ds.length) :
    ∃ n : Numeral, n.negative = negative ∧ n.isWhole = false ∧ n.size = ds.length ∧
      n.body = ds.take k ++ '.' :: ds.drop k := by
  have htake : ds.take k ≠ [] := by
    rw [Ne, List.take_eq_nil_iff, not_or]
    exact ⟨hk, hne⟩
  have hdrop : ds.drop k ≠ [] := by
    rw [Ne, List.drop_eq_nil_iff]
    omega
  refine ⟨⟨negative, ds.take k, ds.drop k, none, htake,
    fun c hc => hd c (List.mem_of_mem_take hc), fun c hc => hd c (List.mem_of_mem_drop hc)⟩,
    rfl, ?_, ?_, ?_⟩
  · simp [Numeral.isWhole, hdrop]
  · have hlength := congrArg List.length (List.take_append_drop k ds)
    rw [List.length_append] at hlength
    simp only [Numeral.size, Numeral.powerValue, Option.elim_none, Int.natAbs_zero, hlength]
    rfl
  · simp [Numeral.body, Numeral.fractionText, Numeral.powerText, hdrop]

end

/-- One digit, the others behind a point, and an exponent. -/
theorem exists_numeral_power (negative : Bool) {d : Char} {ds : List Char}
    (hd : ∀ c ∈ d :: ds, isPlainDigit c = true) (p : Power) :
    ∃ n : Numeral, n.negative = negative ∧ n.isWhole = false ∧
      n.size = 1 + ds.length + p.value.natAbs ∧
      n.body = d :: (Numeral.fractionText ds ++ p.text) := by
  rw [List.forall_mem_cons] at hd
  exact ⟨⟨negative, [d], ds, some p, List.cons_ne_nil _ _, by simpa using hd.1, hd.2⟩,
    rfl, Bool.and_false _, rfl, rfl⟩

/-- An exponent as decimals write it. -/
def Power.ofDecimal (e : Int) : Power :=
  ⟨true, e < 0, digits e.natAbs, digits_ne_nil _, isPlainDigit_of_forall_mem_digits _⟩

theorem Power.text_ofDecimal (e : Int) :
    (Power.ofDecimal e).text = 'E' :: Decimal.exponentText e := by
  simp [Power.ofDecimal, Power.text, Decimal.exponentText]

namespace Decimal

theorem scientific_cons (d : Char) (ds : List Char) (adjusted : Int) :
    scientific (d :: ds) adjusted =
      d :: (Numeral.fractionText ds ++ 'E' :: exponentText adjusted) := by
  cases ds <;> rfl

theorem exists_numeral_body (negative : Bool) (coefficient : Nat) (exponent : Int) :
    ∃ n : Numeral, n.negative = negative ∧ (n.isWhole = true → n.whole = digits coefficient) ∧
      n.body = magnitudeText coefficient exponent := by
  have hne := digits_ne_nil coefficient
  have hd := isPlainDigit_of_forall_mem_digits coefficient
  unfold magnitudeText
  dsimp only
  split
  · unfold pointed
    split
    · refine ⟨⟨negative, digits coefficient, [], none, hne, hd, List.forall_mem_nil _⟩, rfl,
        fun _ => rfl, ?_⟩
      simp [Numeral.body, Numeral.fractionText, Numeral.powerText]
    · split
      · obtain ⟨n, hn, hwhole, -, hbody⟩ := exists_numeral_split negative hne hd
          (k := (digits coefficient).length - exponent.natAbs) (by omega) (by omega)
        exact ⟨n, hn, fun h => absurd h (Bool.eq_false_iff.mp hwhole), hbody⟩
      · obtain ⟨n, hn, hwhole, -, hbody⟩ := exists_numeral_zeros negative hne hd
          (exponent.natAbs - (digits coefficient).length)
        exact ⟨n, hn, fun h => absurd h (Bool.eq_false_iff.mp hwhole), hbody⟩
  · generalize exponent + ((digits coefficient).length : Int) - 1 = adjusted
    cases hdigits : digits coefficient with
    | nil => exact absurd hdigits hne
    | cons d ds =>
      rw [hdigits] at hd
      obtain ⟨n, hn, hwhole, -, hbody⟩ := exists_numeral_power negative hd (.ofDecimal adjusted)
      rw [Power.text_ofDecimal] at hbody
      exact ⟨n, hn, fun h => absurd h (Bool.eq_false_iff.mp hwhole),
        hbody.trans (scientific_cons d ds adjusted).symm⟩

/-- A finite decimal is written as a numeral of its sign, its coefficient and its exponent. Without
fraction and exponent it has the digits of the coefficient. -/
theorem exists_numeral (negative : Bool) (coefficient : Nat) (exponent : Int) :
    ∃ n : Numeral, n.text = text (.finite negative coefficient exponent) ∧
      n.coefficient = coefficient ∧ n.exponent = exponent ∧
      (n.isWhole = true → n.whole = digits coefficient) := by
  obtain ⟨n, hn, hwhole, hbody⟩ := exists_numeral_body negative coefficient exponent
  have hread := n.scientific?_body
  rw [hbody, scientific?_magnitudeText, Option.some.injEq, Prod.mk.injEq] at hread
  refine ⟨n, ?_, hread.1.symm, hread.2.symm, hwhole⟩
  rw [Numeral.text, hn, hbody, text]

end Decimal

end ItemStore.Number
