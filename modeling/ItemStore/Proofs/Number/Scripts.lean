import ItemStore.Proofs.Number.Integers

/-
  Digits of every script. The readers of numbers write the digits of a text in ASCII first
  (`plainDigits`). That keeps the number that digits write (`valueOf_plainDigits`), how many they
  are (`length_plainDigits`), and whether there is a point or an exponent (`any_plainDigits`). So
  what is known of numerals holds of texts that are numerals in the digits of other scripts.
-/

namespace ItemStore.Number

open Text

/-! ## Digits in ASCII -/

theorem digitValue?_eq_none_iff {c : Char} : digitValue? c = none ↔ isDigit c = false := by
  rw [digitValue?, Option.map_eq_none_iff, isDigit, Ranges.has, List.find?_eq_none,
    List.any_eq_false]

theorem exists_digitValue? {c : Char} (h : isDigit c = true) :
    ∃ d, d < 10 ∧ digitValue? c = some d := by
  cases hvalue : digitValue? c with
  | none =>
    rw [digitValue?_eq_none_iff.mp hvalue] at h
    cases h
  | some d =>
    have hlt := digitValue?_getD_lt c
    rw [hvalue] at hlt
    exact ⟨d, hlt, rfl⟩

theorem length_plainDigits (cs : List Char) : (plainDigits cs).length = cs.length :=
  List.length_map _

theorem plainDigits_append (cs ds : List Char) :
    plainDigits (cs ++ ds) = plainDigits cs ++ plainDigits ds :=
  List.map_append

/-- A character is written as an ASCII digit of the same value, or is no digit and kept. -/
theorem plainDigits_cases (c : Char) :
    (∃ d, d < 10 ∧ isDigit c = true ∧ digitValue? c = some d ∧ plainDigits [c] = [digitChar d]) ∨
      (isDigit c = false ∧ plainDigits [c] = [c]) := by
  cases hc : isDigit c with
  | true =>
    obtain ⟨d, hd, hvalue⟩ := exists_digitValue? hc
    refine .inl ⟨d, hd, rfl, hvalue, ?_⟩
    rw [plainDigits, List.map_singleton, hvalue]
  | false =>
    refine .inr ⟨rfl, ?_⟩
    rw [plainDigits, List.map_singleton, digitValue?_eq_none_iff.mpr hc]

theorem plainDigits_cons (c : Char) (cs : List Char) :
    plainDigits (c :: cs) = plainDigits [c] ++ plainDigits cs :=
  rfl

theorem isPlainDigit_of_mem_plainDigits {cs : List Char} (h : ∀ c ∈ cs, isDigit c = true) :
    ∀ c ∈ plainDigits cs, isPlainDigit c = true := by
  induction cs with
  | nil => exact nofun
  | cons c cs ih =>
    rw [List.forall_mem_cons] at h
    rw [plainDigits_cons, List.forall_mem_append]
    refine ⟨?_, ih h.2⟩
    rcases plainDigits_cases c with ⟨d, hd, -, -, hplain⟩ | ⟨hc, -⟩
    · rw [hplain]
      exact List.forall_mem_singleton.mpr (isPlainDigit_digitChar hd)
    · rw [h.1] at hc
      cases hc

/-- Digits behind others are worth what they write, and those in front a power of ten more. -/
theorem valueOf_append (cs ds : List Char) :
    valueOf (cs ++ ds) = valueOf cs * Nat.pow 10 ds.length + valueOf ds := by
  have hfold : ∀ n, ds.foldl (fun n c => 10 * n + (digitValue? c).getD 0) n =
      n * Nat.pow 10 ds.length + valueOf ds := by
    induction ds with
    | nil => exact fun n => (Nat.mul_one n).symm
    | cons d ds ih =>
      intro n
      have hpow : Nat.pow 10 (d :: ds).length = Nat.pow 10 ds.length * 10 := rfl
      rw [valueOf, List.foldl_cons, List.foldl_cons, ih, ih, hpow]
      grind
  rw [valueOf, List.foldl_append]
  exact hfold _

theorem valueOf_plainDigits (cs : List Char) : valueOf (plainDigits cs) = valueOf cs := by
  induction cs with
  | nil => rfl
  | cons c cs ih =>
    have hhead : valueOf (plainDigits [c]) = valueOf [c] := by
      rcases plainDigits_cases c with ⟨d, hd, -, hvalue, hplain⟩ | ⟨-, hplain⟩
      · rw [hplain, valueOf, valueOf, List.foldl_cons, List.foldl_cons, hvalue,
          digitValue?_digitChar hd]
      · rw [hplain]
    rw [plainDigits_cons, valueOf_append, hhead, ih, length_plainDigits, ← valueOf_append]
    rfl

/-- Neither a point nor a letter of an exponent is made or lost. -/
theorem any_plainDigits (cs : List Char) :
    (plainDigits cs).any (fun c => c == '.' || c == 'e' || c == 'E') =
      cs.any fun c => c == '.' || c == 'e' || c == 'E' := by
  induction cs with
  | nil => rfl
  | cons c cs ih =>
    rw [plainDigits_cons, List.any_append, List.any_cons, ih]
    refine congrArg (· || _) ?_
    rcases plainDigits_cases c with ⟨d, hd, hc, -, hplain⟩ | ⟨-, hplain⟩
    · have hdigit := isFractionChar_eq_false _ (digitChar_mem_integerChars hd)
      rw [hplain, List.any_cons, List.any_nil, Bool.or_false, hdigit,
        beq_eq_false_iff_ne.mpr (ne_of_class hc (by decide)),
        beq_eq_false_iff_ne.mpr (ne_of_class hc (by decide)),
        beq_eq_false_iff_ne.mpr (ne_of_class hc (by decide))]
      rfl
    · rw [hplain, List.any_cons, List.any_nil, Bool.or_false]

end ItemStore.Number
