import ItemStore.Proofs.Number.Integers

/-
  Decimals read back. `Decimal.text` writes plain notation (all digits before the point, a point
  among them, or zeros in front) or scientific notation (one digit, with or without a fraction);
  `scientific?_magnitudeText` reads coefficient and exponent off each of them, so that
  `readDecimal?_text` holds for every decimal in range: sign, coefficient and exponent are kept,
  also those of a zero.

  What is read is a run of digits, a run with a point in it, and an exponent behind either
  (`scientific?_run`, `scientific?_point`); the notations are instances of the two.
-/

namespace ItemStore.Number

open Text

/-! ## The characters of a decimal -/

/-- The characters that decimals are written with. -/
def decimalChars : List Char :=
  integerChars ++ ['.', 'E', '+']

theorem mem_decimalChars_of_mem_digits {n : Nat} {c : Char} (h : c ∈ digits n) :
    c ∈ decimalChars :=
  List.mem_append_left _ (mem_integerChars_of_mem_digits h)

theorem isBlank_eq_false_of_mem : ∀ c ∈ decimalChars, isBlank c = false :=
  forall_mem_of_all (by decide)

theorem ne_underscore_of_mem : ∀ c ∈ decimalChars, c ≠ '_' :=
  forall_mem_of_all (by decide)

theorem plainDigits_singleton_of_mem : ∀ c ∈ decimalChars, plainDigits [c] = [c] :=
  forall_mem_of_all (by decide)

namespace Decimal

theorem forall_mem_signText (negative : Bool) : ∀ c ∈ signText negative, c ∈ decimalChars := by
  cases negative <;> exact forall_mem_of_all (by decide)

theorem forall_mem_exponentText (e : Int) : ∀ c ∈ exponentText e, c ∈ decimalChars := by
  unfold exponentText
  rw [List.forall_mem_cons]
  refine ⟨?_, fun c hc => mem_decimalChars_of_mem_digits hc⟩
  split <;> decide

/-- Coefficients written with or without a point, and zeros. -/
theorem forall_mem_pointed {ds : List Char} (h : ∀ c ∈ ds, c ∈ decimalChars) (places : Nat) :
    ∀ c ∈ pointed ds places, c ∈ decimalChars := by
  have hpoint : '.' ∈ decimalChars := by decide
  have hzero : '0' ∈ decimalChars := by decide
  intro c hc
  unfold pointed at hc
  split at hc
  · exact h c hc
  · split at hc
    · rw [List.mem_append, List.mem_cons] at hc
      rcases hc with hc | rfl | hc
      · exact h c (List.mem_of_mem_take hc)
      · exact hpoint
      · exact h c (List.mem_of_mem_drop hc)
    · rw [List.mem_cons, List.mem_cons, List.mem_append] at hc
      rcases hc with rfl | rfl | hc | hc
      · exact hzero
      · exact hpoint
      · rw [List.eq_of_mem_replicate hc]
        exact hzero
      · exact h c hc

theorem forall_mem_scientific {ds : List Char} (h : ∀ c ∈ ds, c ∈ decimalChars)
    (adjusted : Int) : ∀ c ∈ scientific ds adjusted, c ∈ decimalChars := by
  intro c hc
  unfold scientific at hc
  rw [List.mem_append, List.mem_cons] at hc
  rcases hc with hc | rfl | hc
  · split at hc
    · exact h c hc
    · rw [List.mem_cons, List.mem_cons] at hc
      rcases hc with rfl | rfl | hc
      · exact h c List.mem_cons_self
      · decide
      · exact h c (List.mem_cons_of_mem _ hc)
    · exact absurd hc List.not_mem_nil
  · decide
  · exact forall_mem_exponentText adjusted c hc

theorem forall_mem_text (negative : Bool) (coefficient : Nat) (exponent : Int) :
    ∀ c ∈ text (.finite negative coefficient exponent), c ∈ decimalChars := by
  have hdigits : ∀ c ∈ digits coefficient, c ∈ decimalChars :=
    fun c hc => mem_decimalChars_of_mem_digits hc
  intro c hc
  rw [text, List.mem_append] at hc
  rcases hc with hc | hc
  · exact forall_mem_signText negative c hc
  · unfold magnitudeText at hc
    dsimp only at hc
    split at hc
    · exact forall_mem_pointed hdigits _ c hc
    · exact forall_mem_scientific hdigits _ c hc

end Decimal

/-! ## Numbers with a point and an exponent -/

theorem isPlainDigit_of_forall_mem_digits (n : Nat) :
    ∀ c ∈ digits n, isPlainDigit c = true :=
  fun _ hc => isPlainDigit_of_mem_digits hc

/-- A run of digits, with what may stand behind a number. -/
theorem scientific?_run {ds tail : List Char} {e : Int} (hne : ds ≠ [])
    (hd : ∀ c ∈ ds, isPlainDigit c = true) (ht : Stops isPlainDigit tail)
    (hp : Stops (· == '.') tail) (he : exponent? tail = some e) :
    scientific? (ds ++ tail) = some (valueOf ds, e) := by
  have htake := takeWhile_run hd ht
  have hdrop := dropWhile_run hd ht
  unfold scientific?
  dsimp only
  rw [htake, hdrop]
  split
  · exact absurd (stops_cons.mp hp) (by decide)
  · dsimp only
    rw [if_neg fun h => hne h.1, he, List.append_nil]
    simp

/-- Digits with a point among them or in front of them, with what may stand behind a number. -/
theorem scientific?_point {ds fs tail : List Char} {e : Int} (hne : ds = [] → fs ≠ [])
    (hd : ∀ c ∈ ds, isPlainDigit c = true) (hf : ∀ c ∈ fs, isPlainDigit c = true)
    (ht : Stops isPlainDigit tail) (he : exponent? tail = some e) :
    scientific? (ds ++ '.' :: (fs ++ tail)) = some (valueOf (ds ++ fs), e - fs.length) := by
  have hpoint : Stops isPlainDigit ('.' :: (fs ++ tail)) := stops_cons.mpr (by decide)
  have htake := takeWhile_run hd hpoint
  have hdrop := dropWhile_run hd hpoint
  have hsome : ¬(ds = [] ∧ fs = []) := fun h => hne h.1 h.2
  unfold scientific?
  dsimp only
  rw [htake, hdrop]
  simp only [takeWhile_run hf ht, dropWhile_run hf ht, if_neg hsome, he, Option.map_some]

/-- What may stand behind a number: nothing, or an exponent. -/
def exponentTail (e : Option Int) : List Char :=
  e.elim [] fun e => 'E' :: Decimal.exponentText e

theorem exponent?_exponentTail (e : Option Int) :
    exponent? (exponentTail e) = some (e.getD 0) := by
  cases e with
  | none => rfl
  | some e =>
    show exponent? ('E' :: Decimal.exponentText e) = some e
    have hminus : exponent? ('E' :: '-' :: digits e.natAbs) = some (-(e.natAbs : Int)) := by
      simp [exponent?, signedNatural?, splitSign, natural?_digits]
    have hplus : exponent? ('E' :: '+' :: digits e.natAbs) = some (e.natAbs : Int) := by
      simp [exponent?, signedNatural?, splitSign, natural?_digits]
    unfold Decimal.exponentText
    by_cases he : e < 0
    · rw [if_pos he, hminus, Int.ofNat_natAbs_of_nonpos (Int.le_of_lt he), Int.neg_neg]
    · rw [if_neg he, hplus, Int.natAbs_of_nonneg (Int.not_lt.mp he)]

theorem stops_exponentTail (e : Option Int) :
    Stops isPlainDigit (exponentTail e) ∧ Stops (· == '.') (exponentTail e) := by
  cases e with
  | none => exact ⟨stops_nil _, stops_nil _⟩
  | some e => exact ⟨stops_cons.mpr (by decide), stops_cons.mpr (by decide)⟩

theorem valueOf_zero_cons (cs : List Char) : valueOf ('0' :: cs) = valueOf cs := rfl

theorem valueOf_replicate_zero_append (k : Nat) (cs : List Char) :
    valueOf (List.replicate k '0' ++ cs) = valueOf cs := by
  induction k with
  | zero => rfl
  | succ k ih => rw [List.replicate_succ, List.cons_append, valueOf_zero_cons, ih]

namespace Decimal

theorem scientific?_pointed {ds : List Char} (hne : ds ≠ [])
    (hd : ∀ c ∈ ds, isPlainDigit c = true) (places : Nat) :
    scientific? (pointed ds places) = some (valueOf ds, -(places : Int)) := by
  have hnil := stops_exponentTail none
  have hnone := exponent?_exponentTail none
  unfold pointed
  by_cases hzero : places = 0
  · have hread := scientific?_run hne hd hnil.1 hnil.2 hnone
    rw [if_pos hzero, hzero]
    rw [exponentTail, Option.elim_none, List.append_nil] at hread
    exact hread
  · rw [if_neg hzero]
    by_cases hlt : places < ds.length
    · -- the point stands among the digits
      have htake : ds.take (ds.length - places) ≠ [] := by
        intro h
        have := congrArg List.length h
        rw [List.length_take, List.length_nil] at this
        omega
      have hread := scientific?_point (absurd · htake) (fun c hc => hd c (List.mem_of_mem_take hc))
        (fun c hc => hd c (List.mem_of_mem_drop (i := ds.length - places) hc)) hnil.1 hnone
      have hlength : (ds.drop (ds.length - places)).length = places := by
        rw [List.length_drop]
        omega
      rw [exponentTail, Option.elim_none, List.append_nil, List.take_append_drop,
        hlength] at hread
      rw [if_pos hlt, hread]
      simp
    · -- zeros stand between the point and the digits
      have hzeros : ∀ c ∈ List.replicate (places - ds.length) '0' ++ ds,
          isPlainDigit c = true := by
        intro c hc
        rcases List.mem_append.mp hc with hc | hc
        · rw [List.eq_of_mem_replicate hc]
          decide
        · exact hd c hc
      have hread := scientific?_point (absurd · (List.cons_ne_nil '0' []))
        (forall_mem_of_all (by decide))
        hzeros hnil.1 hnone
      have hlength : (List.replicate (places - ds.length) '0' ++ ds).length = places := by
        rw [List.length_append, List.length_replicate]
        omega
      rw [exponentTail, Option.elim_none, List.append_nil, hlength, List.singleton_append,
        List.singleton_append, valueOf_zero_cons, valueOf_replicate_zero_append] at hread
      rw [if_neg hlt, hread]
      simp

theorem scientific?_scientific {ds : List Char} (hne : ds ≠ [])
    (hd : ∀ c ∈ ds, isPlainDigit c = true) (adjusted : Int) :
    scientific? (scientific ds adjusted) =
      some (valueOf ds, adjusted - (ds.length - 1 : Nat)) := by
  have htail := stops_exponentTail (some adjusted)
  have hexponent := exponent?_exponentTail (some adjusted)
  unfold scientific
  cases ds with
  | nil => exact absurd rfl hne
  | cons d rest =>
    cases rest with
    | nil =>
      have hread := scientific?_run hne hd htail.1 htail.2 hexponent
      show scientific? ([d] ++ exponentTail (some adjusted)) = _
      rw [hread]
      simp
    | cons r rest =>
      rw [List.forall_mem_cons] at hd
      have hread := scientific?_point (absurd · (List.cons_ne_nil d [])) (by simpa using hd.1) hd.2
        htail.1 hexponent
      show scientific? ([d] ++ '.' :: (r :: rest ++ exponentTail (some adjusted))) = _
      rw [hread]
      simp

/-- Coefficient and exponent are read off either notation. -/
theorem scientific?_magnitudeText (coefficient : Nat) (exponent : Int) :
    scientific? (magnitudeText coefficient exponent) = some (coefficient, exponent) := by
  have hne := digits_ne_nil coefficient
  have hd := isPlainDigit_of_forall_mem_digits coefficient
  have hlength : 0 < (digits coefficient).length := List.length_pos_iff.mpr hne
  unfold magnitudeText
  dsimp only
  split
  · rw [scientific?_pointed hne hd, valueOf_digits]
    congr 2
    omega
  · rw [scientific?_scientific hne hd, valueOf_digits]
    congr 2
    omega

/-! ## Signs and words -/

/-- The text of a number without its sign starts with a digit. -/
theorem exists_cons_of_magnitudeText (coefficient : Nat) (exponent : Int) :
    ∃ d cs, magnitudeText coefficient exponent = d :: cs ∧ isPlainDigit d = true := by
  have hd := isPlainDigit_of_forall_mem_digits coefficient
  have hlength : 0 < (digits coefficient).length :=
    List.length_pos_iff.mpr (digits_ne_nil coefficient)
  unfold magnitudeText
  dsimp only
  cases hdigits : digits coefficient with
  | nil => exact absurd hdigits (digits_ne_nil coefficient)
  | cons d ds =>
    rw [hdigits, List.forall_mem_cons] at hd
    split
    · unfold pointed
      split
      · exact ⟨d, ds, rfl, hd.1⟩
      · split
        · next hlt =>
          obtain ⟨k, hk⟩ : ∃ k, (d :: ds).length - exponent.natAbs = k + 1 :=
            ⟨(d :: ds).length - exponent.natAbs - 1, by omega⟩
          rw [hk]
          exact ⟨d, _, rfl, hd.1⟩
        · exact ⟨'0', _, rfl, by decide⟩
    · cases ds with
      | nil => exact ⟨d, _, rfl, hd.1⟩
      | cons r rest => exact ⟨d, _, rfl, hd.1⟩

theorem splitSign_signText {negative : Bool} {d : Char} {cs : List Char}
    (hd : isPlainDigit d = true) :
    splitSign (signText negative ++ d :: cs) = (negative, d :: cs) := by
  cases negative with
  | true => rfl
  | false =>
    show splitSign (d :: cs) = (false, d :: cs)
    unfold splitSign
    split
    · next heq =>
      rw [(List.cons.inj heq).1] at hd
      exact absurd hd (by decide)
    · next heq =>
      rw [(List.cons.inj heq).1] at hd
      exact absurd hd (by decide)
    · rfl

/-- A digit has no other case. -/
theorem toLower_of_isPlainDigit {d : Char} (h : isPlainDigit d = true) : d.toLower = d := by
  rw [isPlainDigit, Bool.and_eq_true, decide_eq_true_eq, decide_eq_true_eq] at h
  unfold Char.toLower
  refine dif_neg fun hupper => ?_
  have hle : d.val ≤ ('9' : Char).val := h.2
  have := UInt32.le_iff_toNat_le.mp hle
  have := UInt32.le_iff_toNat_le.mp hupper.1
  have : ('9' : Char).val.toNat = 57 := rfl
  have : ('A' : Char).val.toNat = 65 := rfl
  omega

/-- A digit or a point: what a number without its sign starts with. -/
def isLeading (c : Char) : Bool :=
  isPlainDigit c || c == '.'

theorem isLeading_of_isPlainDigit {c : Char} (h : isPlainDigit c = true) : isLeading c = true := by
  rw [isLeading, h, Bool.true_or]

theorem toLower_of_isLeading {d : Char} (h : isLeading d = true) : d.toLower = d := by
  rw [isLeading, Bool.or_eq_true, beq_iff_eq] at h
  rcases h with h | rfl
  · exact toLower_of_isPlainDigit h
  · rfl

/-- What starts like a number is no word that starts with a letter. -/
theorem isWordOf_of_isLeading {word : String} {d : Char} (cs : List Char) (hd : isLeading d = true)
    (hw : word.toList.head?.any isLeading = false) : isWordOf word (d :: cs) = false := by
  rw [isWordOf, beq_eq_false_iff_ne, List.map_cons, toLower_of_isLeading hd]
  intro h
  rw [← h, List.head?_cons, Option.any_some, hd] at hw
  cases hw

/-- What starts like a number is read as one, if decimals reach it. -/
theorem unsignedDecimal?_of_isLeading (negative : Bool) {d : Char} {cs : List Char}
    (hd : isLeading d = true) {coefficient : Nat} {exponent : Int}
    (hs : scientific? (d :: cs) = some (coefficient, exponent)) :
    unsignedDecimal? negative (d :: cs) = if inRange coefficient exponent then
      some (.finite negative coefficient exponent) else none := by
  have hinf : isWordOf "inf" (d :: cs) = false :=
    isWordOf_of_isLeading cs hd (by decide +kernel)
  have hinfinity : isWordOf "infinity" (d :: cs) = false :=
    isWordOf_of_isLeading cs hd (by decide +kernel)
  have hnan : isWordOf "nan" ((d :: cs).take 3) = false :=
    isWordOf_of_isLeading (cs.take 2) hd (by decide +kernel)
  have hsnan : isWordOf "snan" ((d :: cs).take 4) = false :=
    isWordOf_of_isLeading (cs.take 3) hd (by decide +kernel)
  rw [unsignedDecimal?, isInfinity, hinf, hinfinity, hnan, hsnan, hs]
  simp only [Bool.or_self, Bool.false_eq_true, if_false]

/-- What `text` writes is read back, with its sign, every digit and its exponent. -/
theorem readDecimal?_text {negative : Bool} {coefficient : Nat} {exponent : Int}
    (h : inRange coefficient exponent = true) :
    readDecimal? (text (.finite negative coefficient exponent)) =
      some (.finite negative coefficient exponent) := by
  have hmem := forall_mem_text negative coefficient exponent
  have htrim := trim_of_forall_not fun c hc => isBlank_eq_false_of_mem c (hmem c hc)
  have hfilter : (text (.finite negative coefficient exponent)).filter (· ≠ '_') =
      text (.finite negative coefficient exponent) :=
    List.filter_eq_self.mpr fun c hc => decide_eq_true (ne_underscore_of_mem c (hmem c hc))
  have hplain := plainDigits_eq_self fun c hc => plainDigits_singleton_of_mem c (hmem c hc)
  obtain ⟨d, cs, hcons, hd⟩ := exists_cons_of_magnitudeText coefficient exponent
  have hread := scientific?_magnitudeText coefficient exponent
  rw [hcons] at hread
  rw [readDecimal?, htrim, hfilter, hplain, text, hcons, splitSign_signText hd]
  have hlead := isLeading_of_isPlainDigit hd
  exact (unsignedDecimal?_of_isLeading negative hlead hread).trans (if_pos h)

/-- An integer is written as the decimal that it is. -/
theorem text_ofInt (n : Int) : text (ofInt n) = intText n := by
  have hdigits : ∀ m : Nat, magnitudeText m 0 = digits m := by
    intro m
    have hlength : 0 < (digits m).length := List.length_pos_iff.mpr (digits_ne_nil m)
    unfold magnitudeText
    dsimp only
    rw [if_pos ⟨Int.le_refl 0, by omega⟩]
    rfl
  rw [ofInt, text, hdigits]
  cases n with
  | ofNat n => rfl
  | negSucc n =>
    rw [decide_eq_true (Int.negSucc_lt_zero n)]
    rfl

end Decimal

end ItemStore.Number
