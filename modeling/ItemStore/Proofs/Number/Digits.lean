import ItemStore.Number.Digits

/-
  Whole numbers and integers as text. `valueOf` reads back what `digits` writes
  (`valueOf_digits`), so neither `digits` nor `intText` gives two numbers the same text
  (`digits_inj`, `intText_inj`). Every character of `digits n` is an ASCII digit; `intText` has
  a sign in front exactly when the number is negative.
-/

namespace ItemStore.Number

open Text

/-! ## One digit -/

theorem digitValue?_digitChar {d : Nat} (h : d < 10) : digitValue? (digitChar d) = some d := by
  revert d
  decide

theorem isDigit_digitChar {d : Nat} (h : d < 10) : isDigit (digitChar d) = true := by
  revert d
  decide

/-! ## Runs of digits -/

theorem digits_of_lt {n : Nat} (h : n < 10) : digits n = [digitChar n] := by
  rw [digits, if_pos h]

theorem digits_of_le {n : Nat} (h : 10 ≤ n) :
    digits n = digits (n / 10) ++ [digitChar (n % 10)] := by
  rw [digits, if_neg (by omega)]

/-- Every character of a written number is the character of a digit. -/
theorem mem_digits {n : Nat} {c : Char} (h : c ∈ digits n) : ∃ d, d < 10 ∧ c = digitChar d := by
  fun_induction digits n with
  | case1 n hn => exact ⟨n, hn, by simpa using h⟩
  | case2 n hn ih =>
    rw [List.mem_append, List.mem_singleton] at h
    rcases h with h | h
    · exact ih h
    · exact ⟨n % 10, Nat.mod_lt n (by decide), h⟩

theorem digits_ne_nil (n : Nat) : digits n ≠ [] := by
  by_cases h : n < 10
  · simp [digits_of_lt h]
  · simp [digits_of_le (Nat.le_of_not_lt h)]

theorem isDigit_of_mem_digits {n : Nat} {c : Char} (h : c ∈ digits n) : isDigit c = true := by
  obtain ⟨d, hd, rfl⟩ := mem_digits h
  exact isDigit_digitChar hd

theorem valueOf_append_singleton (cs : List Char) (c : Char) :
    valueOf (cs ++ [c]) = 10 * valueOf cs + (digitValue? c).getD 0 := by
  simp [valueOf, List.foldl_append]

/-- What `digits` writes is read back. -/
theorem valueOf_digits (n : Nat) : valueOf (digits n) = n := by
  fun_induction digits n with
  | case1 n hn => simp [valueOf, digitValue?_digitChar hn]
  | case2 n hn ih =>
    have hm : n % 10 < 10 := Nat.mod_lt n (by decide)
    rw [valueOf_append_singleton, ih, digitValue?_digitChar hm, Option.getD_some]
    omega

theorem digits_inj {m n : Nat} (h : digits m = digits n) : m = n := by
  rw [← valueOf_digits m, h, valueOf_digits]

/-! ## Lengths -/

theorem digitValue?_getD_lt (c : Char) : (digitValue? c).getD 0 < 10 := by
  unfold digitValue?
  cases digitRanges.find? fun r => r.1 ≤ c.toNat && c.toNat ≤ r.2 with
  | none => exact Nat.zero_lt_succ 9
  | some r => exact Nat.mod_lt _ (by decide)

/-- A number has no more digits than a power of ten above it has zeros. -/
theorem length_digits_le {n k : Nat} (hk : 0 < k) (h : n < Nat.pow 10 k) :
    (digits n).length ≤ k := by
  induction k generalizing n with
  | zero => exact absurd hk (Nat.lt_irrefl 0)
  | succ k ih =>
    by_cases hn : n < 10
    · rw [digits_of_lt hn]
      exact Nat.le_add_left 1 k
    · change n < Nat.pow 10 k * 10 at h
      have hdiv : n / 10 < Nat.pow 10 k := Nat.div_lt_of_lt_mul (by rwa [Nat.mul_comm])
      have hpos : 0 < k := by
        rw [Nat.pos_iff_ne_zero]
        rintro rfl
        have hone : Nat.pow 10 0 = 1 := rfl
        omega
      rw [digits_of_le (Nat.le_of_not_lt hn), List.length_append, List.length_singleton]
      exact Nat.add_le_add_right (ih hpos hdiv) 1

/-- A run of digits writes a number below a power of ten with as many zeros. -/
theorem valueOf_lt (cs : List Char) : valueOf cs < Nat.pow 10 cs.length := by
  have hfold : ∀ n k, n < Nat.pow 10 k →
      cs.foldl (fun n c => 10 * n + (digitValue? c).getD 0) n < Nat.pow 10 (k + cs.length) := by
    induction cs with
    | nil => exact fun n k h => h
    | cons c cs ih =>
      intro n k h
      have hdigit := digitValue?_getD_lt c
      have hstep : 10 * n + (digitValue? c).getD 0 < Nat.pow 10 k * 10 := by omega
      have hnext := ih _ (k + 1) hstep
      rwa [Nat.add_assoc, Nat.add_comm 1] at hnext
  have hvalue := hfold 0 0 (by decide)
  rwa [Nat.zero_add] at hvalue

/-- A number with a limited number of digits is below a power of ten. -/
theorem length_digits_le_iff {n k : Nat} (hk : 0 < k) :
    (digits n).length ≤ k ↔ n < Nat.pow 10 k := by
  refine ⟨fun h => ?_, length_digits_le hk⟩
  calc n = valueOf (digits n) := (valueOf_digits n).symm
    _ < Nat.pow 10 (digits n).length := valueOf_lt _
    _ ≤ Nat.pow 10 k := Nat.pow_le_pow_right (by decide) h

/-! ## Integers -/

theorem isWritable_iff {n : Int} : isWritable n = true ↔ n.natAbs < Nat.pow 10 maxDigits := by
  rw [isWritable, decide_eq_true_eq, length_digits_le_iff (by decide)]

/-- The least number with too many digits. -/
theorem isWritable_pow : isWritable (Nat.pow 10 maxDigits : Nat) = false := by
  rw [← Bool.not_eq_true, isWritable_iff, Int.natAbs_natCast]
  exact Nat.lt_irrefl _

theorem intText_natCast (n : Nat) : intText (n : Int) = digits n := rfl

theorem intText_neg_succ (n : Nat) : intText (Int.negSucc n) = '-' :: digits (n + 1) := rfl

theorem intText_of_nonneg {n : Int} (h : 0 ≤ n) : intText n = digits n.toNat := by
  rw [← intText_natCast, Int.toNat_of_nonneg h]

theorem digits_ne_minus_cons (m : Nat) (cs : List Char) : digits m ≠ '-' :: cs := by
  intro h
  have hmem : '-' ∈ digits m := by rw [h]; exact List.mem_cons_self
  exact absurd (isDigit_of_mem_digits hmem) (by decide)

theorem intText_inj {m n : Int} (h : intText m = intText n) : m = n := by
  cases m with
  | ofNat m =>
    cases n with
    | ofNat n => rw [digits_inj h]
    | negSucc n => exact absurd h (digits_ne_minus_cons m _)
  | negSucc m =>
    cases n with
    | ofNat n => exact absurd h.symm (digits_ne_minus_cons n _)
    | negSucc n =>
      have hd : digits (m + 1) = digits (n + 1) := (List.cons.inj h).2
      rw [Nat.succ.inj (digits_inj hd)]

end ItemStore.Number
