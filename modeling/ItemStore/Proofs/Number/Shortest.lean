import ItemStore.Number.Shortest
import ItemStore.Proofs.Number.Numerals

/-
  The text of a binary64 number as a numeral. Which digits the search for the shortest text finds
  is left open: plain and scientific notation make a numeral of any digits
  (`exists_numeral_positional`, `exists_numeral_exponential`). Whatever is found, a significand
  below 2^53 and an exponent from -1074 to 971 keep its length and its exponent in the thousands
  (`shortest_bounds`), far inside the range of decimals. Each bound is the roughest that the next
  one can use, a power of ten with a variable exponent.
-/

namespace ItemStore.Number

/-- A number without its final zeros, and their count, give the number again. -/
theorem Decimal.stripZeros_mul (n : Nat) :
    (stripZeros n).1 * Nat.pow 10 (stripZeros n).2 = n := by
  fun_induction stripZeros n with
  | case1 n h => exact Nat.mul_one n
  | case2 n h m k heq ih =>
    rw [heq] at ih
    dsimp only at ih ⊢
    have hsucc : Nat.pow 10 (k + 1) = Nat.pow 10 k * 10 := rfl
    rw [hsucc, ← Nat.mul_assoc, ih]
    omega

theorem Decimal.stripZeros_bounds {n k : Nat} (hk : 0 < k) (h : n < Nat.pow 10 k) :
    (digits (stripZeros n).1).length ≤ k ∧ (stripZeros n).2 ≤ k := by
  have hmul := stripZeros_mul n
  have hle : (stripZeros n).1 ≤ n :=
    calc (stripZeros n).1
        ≤ (stripZeros n).1 * Nat.pow 10 (stripZeros n).2 :=
          Nat.le_mul_of_pos_right _ (Nat.pow_pos (by decide))
      _ = n := hmul
  refine ⟨length_digits_le hk (Nat.lt_of_le_of_lt hle h), ?_⟩
  by_cases hn : n = 0
  · rw [hn, stripZeros]
    exact Nat.zero_le k
  · have hpos : 0 < (stripZeros n).1 := by
      rw [Nat.pos_iff_ne_zero]
      intro hzero
      rw [hzero, Nat.zero_mul] at hmul
      exact hn hmul.symm
    have hpow : Nat.pow 10 (stripZeros n).2 ≤ n :=
      calc Nat.pow 10 (stripZeros n).2
          ≤ (stripZeros n).1 * Nat.pow 10 (stripZeros n).2 := Nat.le_mul_of_pos_left _ hpos
        _ = n := hmul
    exact Nat.le_of_lt ((Nat.pow_lt_pow_iff_right (by decide)).mp (Nat.lt_of_le_of_lt hpow h))

namespace Binary64

/-! ## Sizes on the way to the shortest text -/

/-- Whether a number is one of those that 64 bits hold. -/
def isSized : Binary64 → Bool
  | .finite _ m q => m < Nat.pow 2 53 && (-1074 ≤ q && q ≤ 971)
  | _ => true

theorem pow_two_le {j k : Nat} (h : j ≤ k) : Nat.pow 2 j ≤ Nat.pow 10 k :=
  calc Nat.pow 2 j ≤ Nat.pow 10 j := Nat.pow_le_pow_left (by decide) j
    _ ≤ Nat.pow 10 k := Nat.pow_le_pow_right (by decide) h

section

variable {m : Nat} {q : Int} {k : Nat} (hm : m < Nat.pow 2 53) (hlow : -1074 ≤ q)
  (hhigh : q ≤ 971) (hk : 1076 ≤ k)

include hm hlow hhigh hk

theorem interval_lt :
    (interval m q).value < Nat.pow 10 (k + 17) ∧ (interval m q).den < Nat.pow 10 (k + 17) := by
  have hm : 4 * m < Nat.pow 10 17 := by
    have hbound : m < 9007199254740992 := hm
    have hpow : Nat.pow 10 17 = 100000000000000000 := rfl
    omega
  have hone : 1 ≤ Nat.pow 10 k := Nat.one_le_pow k 10 (by decide)
  have hadd : Nat.pow 10 (k + 17) = Nat.pow 10 k * Nat.pow 10 17 := Nat.pow_add 10 k 17
  rw [hadd]
  constructor
  · have hup : (if q - 2 < 0 then 1 else Nat.pow 2 (q - 2).natAbs) ≤ Nat.pow 10 k := by
      split
      · exact hone
      · exact pow_two_le (by omega)
    calc 4 * m * (if q - 2 < 0 then 1 else Nat.pow 2 (q - 2).natAbs)
        ≤ 4 * m * Nat.pow 10 k := Nat.mul_le_mul_left _ hup
      _ < Nat.pow 10 17 * Nat.pow 10 k := Nat.mul_lt_mul_of_pos_right hm hone
      _ = Nat.pow 10 k * Nat.pow 10 17 := Nat.mul_comm _ _
  · have hden : (if q - 2 < 0 then Nat.pow 2 (q - 2).natAbs else 1) ≤ Nat.pow 10 k := by
      split
      · exact pow_two_le (by omega)
      · exact hone
    calc (if q - 2 < 0 then Nat.pow 2 (q - 2).natAbs else 1)
        ≤ Nat.pow 10 k := hden
      _ < Nat.pow 10 k * Nat.pow 10 17 := (Nat.lt_mul_iff_one_lt_right hone).mpr (by decide)

end

theorem natAbs_decimalExponent_le {num den k : Nat} (hk : 0 < k) (hn : num < Nat.pow 10 k)
    (hd : den < Nat.pow 10 k) : (decimalExponent num den).natAbs ≤ k + 1 := by
  unfold decimalExponent
  split
  · have hlength := length_digits_le hk (Nat.lt_of_le_of_lt (Nat.div_le_self num den) hn)
    have hpos := List.length_pos_iff.mpr (digits_ne_nil (num / den))
    omega
  · have hsize : (den + num - 1) / num - 1 < Nat.pow 10 (k + 1) := by
      have hself := Nat.div_le_self (den + num - 1) num
      have hpow : Nat.pow 10 (k + 1) = Nat.pow 10 k * 10 := rfl
      omega
    have hlength := length_digits_le (Nat.succ_pos k) hsize
    omega

/-- A point of a grid is not much above the number on the grid. -/
theorem le_of_onGrid? {i : Interval} {k : Int} {a : Nat} (h : i.onGrid? k = some a) :
    a ≤ i.value * Nat.pow 10 k.natAbs + 1 := by
  have hscaled : (onGrid i.value i.den k).1 ≤ i.value * Nat.pow 10 k.natAbs := by
    unfold onGrid
    split
    · exact Nat.le_refl _
    · exact Nat.le_mul_of_pos_right _ (Nat.pow_pos (by decide))
  have hquotient := Nat.div_le_self (onGrid i.value i.den k).1 (onGrid i.value i.den k).2
  have hnearest : nearest (onGrid i.value i.den k).1 (onGrid i.value i.den k).2 ≤
      (onGrid i.value i.den k).1 / (onGrid i.value i.den k).2 + 1 := by
    unfold nearest
    dsimp only
    split <;> omega
  unfold Interval.onGrid? at h
  dsimp only at h
  split at h <;> cases h <;> omega

section

variable {m : Nat} {q : Int} {k : Nat} (hm : m < Nat.pow 2 53) (hlow : -1074 ≤ q)
  (hhigh : q ≤ 971) (hk : 1076 ≤ k)

include hm hlow hhigh hk

/-- The digits that are found are few, and their exponent is small. -/
theorem shortest_bounds : (digits (shortest m q).1).length ≤ 2 * k + 52 ∧
    (shortest m q).2.natAbs ≤ 3 * k + 86 := by
  obtain ⟨hvalue, hden⟩ := interval_lt hm hlow hhigh hk
  have hexponent := natAbs_decimalExponent_le (Nat.succ_pos _) hvalue hden
  have hfound : ∀ p ∈ (List.range 17).findSome? fun more : Nat =>
      ((interval m q).onGrid?
        (decimalExponent (interval m q).value (interval m q).den - more)).map fun a =>
          (a, decimalExponent (interval m q).value (interval m q).den - (more : Int)),
      p.1 < Nat.pow 10 (2 * k + 52) ∧ p.2.natAbs ≤ k + 34 := by
    intro p hp
    obtain ⟨more, hmore, hmap⟩ := List.exists_of_findSome?_eq_some hp
    obtain ⟨a, ha, rfl⟩ := Option.map_eq_some_iff.mp hmap
    have hmore := List.mem_range.mp hmore
    have hsize : (decimalExponent (interval m q).value (interval m q).den -
        (more : Int)).natAbs ≤ k + 34 := by omega
    have hone : 1 ≤ Nat.pow 10 (2 * k + 51) := Nat.one_le_pow _ 10 (by decide)
    refine ⟨?_, hsize⟩
    calc a ≤ (interval m q).value * Nat.pow 10 _ + 1 := le_of_onGrid? ha
      _ ≤ Nat.pow 10 (k + 17) * Nat.pow 10 (k + 34) + 1 := Nat.add_le_add_right
        (Nat.mul_le_mul (Nat.le_of_lt hvalue) (Nat.pow_le_pow_right (by decide) hsize)) 1
      _ = Nat.pow 10 (2 * k + 51) + 1 := by
        have hadd : Nat.pow 10 (k + 17 + (k + 34)) = Nat.pow 10 (k + 17) * Nat.pow 10 (k + 34) :=
          Nat.pow_add 10 _ _
        rw [← hadd, show k + 17 + (k + 34) = 2 * k + 51 by omega]
      _ < Nat.pow 10 (2 * k + 52) := by
        have hpow : Nat.pow 10 (2 * k + 52) = Nat.pow 10 (2 * k + 51) * 10 := rfl
        omega
  unfold shortest
  dsimp only
  generalize (List.range 17).findSome? _ = found at hfound ⊢
  have hpair : (found.getD (0, 0)).1 < Nat.pow 10 (2 * k + 52) ∧
      (found.getD (0, 0)).2.natAbs ≤ k + 34 := by
    cases found with
    | none => exact ⟨Nat.pow_pos (by decide), Nat.zero_le _⟩
    | some p => exact hfound p rfl
  obtain ⟨hdigits, hzeros⟩ := Decimal.stripZeros_bounds (Nat.succ_pos _) hpair.1
  exact ⟨hdigits, by omega⟩

end

/-! ## Written binary64 numbers -/

section

variable (negative : Bool) {ds : List Char} (hne : ds ≠ [])
  (hd : ∀ c ∈ ds, isPlainDigit c = true)

include hne hd

theorem exists_numeral_positional (point : Int) :
    ∃ n : Numeral, n.negative = negative ∧ n.isWhole = false ∧
      n.size ≤ ds.length + point.natAbs + 2 ∧ n.body = positional ds point := by
  unfold positional
  split
  · obtain ⟨n, hn, hwhole, hsize, hbody⟩ := exists_numeral_zeros negative hne hd point.natAbs
    exact ⟨n, hn, hwhole, by omega, hbody⟩
  · dsimp only
    split
    · have hzeros : ∀ c ∈ ds ++ List.replicate (point.natAbs - ds.length) '0',
          isPlainDigit c = true := by
        refine List.forall_mem_append.mpr ⟨hd, fun c hc => ?_⟩
        rw [List.eq_of_mem_replicate hc]
        decide
      refine ⟨⟨negative, ds ++ List.replicate (point.natAbs - ds.length) '0', ['0'], none,
        List.append_ne_nil_of_left_ne_nil hne _, hzeros, Text.forall_mem_of_all (by decide)⟩, rfl,
        rfl, ?_, ?_⟩
      · simp only [Numeral.size, Numeral.powerValue, List.length_append, List.length_replicate,
          List.length_singleton, Option.elim_none, Int.natAbs_zero]
        omega
      · simp [Numeral.body, Numeral.fractionText, Numeral.powerText]
    · obtain ⟨n, hn, hwhole, hsize, hbody⟩ := exists_numeral_split negative hne hd
        (k := point.natAbs) (by omega) (by omega)
      exact ⟨n, hn, hwhole, by omega, hbody⟩

end

theorem forall_mem_padded (width k : Nat) : ∀ c ∈ padded width k, isPlainDigit c = true := by
  refine List.forall_mem_append.mpr ⟨fun c hc => ?_, isPlainDigit_of_forall_mem_digits k⟩
  rw [List.eq_of_mem_replicate hc]
  decide

theorem padded_ne_nil (width k : Nat) : padded width k ≠ [] :=
  List.append_ne_nil_of_right_ne_nil _ (digits_ne_nil k)

theorem valueOf_padded (width k : Nat) : valueOf (padded width k) = k := by
  rw [padded, valueOf_replicate_zero_append, valueOf_digits]

/-- An exponent as binary64 numbers write it. -/
def power (e : Int) : Power :=
  ⟨false, e < 0, padded 2 e.natAbs, padded_ne_nil _ _, forall_mem_padded _ _⟩

theorem natAbs_value_power (e : Int) : (power e).value.natAbs = e.natAbs := by
  unfold power Power.value
  rw [valueOf_padded]
  split <;> omega

theorem exponential_cons (d : Char) (ds : List Char) (e : Int) :
    exponential (d :: ds) e = d :: (Numeral.fractionText ds ++ (power e).text) := by
  have htext : (power e).text = 'e' :: (if e < 0 then '-' else '+') :: padded 2 e.natAbs := by
    simp [power, Power.text]
  rw [htext]
  cases ds <;> rfl

theorem exists_numeral_exponential (negative : Bool) {ds : List Char} (hne : ds ≠ [])
    (hd : ∀ c ∈ ds, isPlainDigit c = true) (e : Int) :
    ∃ n : Numeral, n.negative = negative ∧ n.isWhole = false ∧
      n.size = ds.length + e.natAbs ∧ n.body = exponential ds e := by
  cases ds with
  | nil => exact absurd rfl hne
  | cons d ds =>
    obtain ⟨n, hn, hwhole, hsize, hbody⟩ := exists_numeral_power negative hd (power e)
    refine ⟨n, hn, hwhole, ?_, by rw [hbody, exponential_cons]⟩
    rw [hsize, natAbs_value_power, List.length_cons]
    omega

/-- A finite binary64 number is written as a numeral with a fraction or an exponent, which decimals
have too. -/
theorem exists_numeral (negative : Bool) (m : Nat) (q : Int) :
    ∃ n : Numeral, n.text = text (.finite negative m q) ∧ n.isWhole = false ∧
      (isSized (.finite negative m q) = true → n.InRange) := by
  have hne := digits_ne_nil (shortest m q).1
  have hd := isPlainDigit_of_forall_mem_digits (shortest m q).1
  have hbounds : isSized (.finite negative m q) = true →
      (digits (shortest m q).1).length ≤ 2204 ∧ (shortest m q).2.natAbs ≤ 3314 := by
    intro h
    rw [isSized, Bool.and_eq_true, Bool.and_eq_true, decide_eq_true_eq, decide_eq_true_eq,
      decide_eq_true_eq] at h
    exact shortest_bounds h.1 h.2.1 h.2.2 (Nat.le_refl 1076)
  rw [text]
  by_cases hm : m = 0
  · rw [if_pos hm]
    refine ⟨⟨negative, ['0'], ['0'], none, List.cons_ne_nil _ _,
      Text.forall_mem_of_all (by decide), Text.forall_mem_of_all (by decide)⟩, ?_, rfl, ?_⟩
    · simp [Numeral.text, Numeral.body, Numeral.fractionText, Numeral.powerText]
    · exact fun _ => Numeral.inRange_of_size (show 2 ≤ 999999999999999999 by decide)
  · rw [if_neg hm]
    dsimp only
    split
    · obtain ⟨n, hn, hwhole, hsize, hbody⟩ := exists_numeral_positional negative hne hd
        ((shortest m q).2 + (digits (shortest m q).1).length)
      refine ⟨n, by rw [Numeral.text, hn, hbody], hwhole, fun h => Numeral.inRange_of_size ?_⟩
      have := hbounds h
      omega
    · obtain ⟨n, hn, hwhole, hsize, hbody⟩ := exists_numeral_exponential negative hne hd
        ((shortest m q).2 + (digits (shortest m q).1).length - 1)
      refine ⟨n, by rw [Numeral.text, hn, hbody], hwhole, fun h => Numeral.inRange_of_size ?_⟩
      have := hbounds h
      omega

end Binary64

end ItemStore.Number
