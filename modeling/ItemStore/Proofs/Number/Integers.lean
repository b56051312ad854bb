import ItemStore.Number.Reading
import ItemStore.Proofs.Number.Digits
import ItemStore.Proofs.Text.Runs

/-
  Integers read back. `readInt?` takes white space, grouping and digits of every script; on what
  `intText` writes none of that occurs, so each step of the reading leaves the text as it is
  (`normalize?_of_plain`) and `readInt?_intText` follows. Reading has the limit of digits that
  writing has, so just the integers that are written are read back.
-/

namespace ItemStore.Number

open Text

/-- The characters that integers are written with. -/
def integerChars : List Char :=
  ['-', '0', '1', '2', '3', '4', '5', '6', '7', '8', '9']

theorem digitChar_mem_integerChars {d : Nat} (h : d < 10) : digitChar d ∈ integerChars := by
  revert d
  decide

theorem mem_integerChars_of_mem_digits {n : Nat} {c : Char} (h : c ∈ digits n) :
    c ∈ integerChars := by
  obtain ⟨d, hd, rfl⟩ := mem_digits h
  exact digitChar_mem_integerChars hd

theorem mem_integerChars_of_mem_intText {n : Int} {c : Char} (h : c ∈ intText n) :
    c ∈ integerChars := by
  cases n with
  | ofNat n => exact mem_integerChars_of_mem_digits h
  | negSucc n =>
    rw [intText_neg_succ, List.mem_cons] at h
    rcases h with rfl | h
    · decide
    · exact mem_integerChars_of_mem_digits h

theorem isMargin_eq_false : ∀ c ∈ integerChars, isMargin c = false :=
  forall_mem_of_all (by decide)

theorem ne_underscore : ∀ c ∈ integerChars, c ≠ '_' :=
  forall_mem_of_all (by decide)

/-- Neither a point nor the letter of an exponent. -/
theorem isFractionChar_eq_false :
    ∀ c ∈ integerChars, (c == '.' || c == 'e' || c == 'E') = false :=
  forall_mem_of_all (by decide)

theorem isPlainDigit_digitChar {d : Nat} (h : d < 10) : isPlainDigit (digitChar d) = true := by
  revert d
  decide

theorem isPlainDigit_of_mem_digits {n : Nat} {c : Char} (h : c ∈ digits n) :
    isPlainDigit c = true := by
  obtain ⟨d, hd, rfl⟩ := mem_digits h
  exact isPlainDigit_digitChar hd

/-! ## Reading -/

theorem plainDigits_eq_self {cs : List Char} (h : ∀ c ∈ cs, plainDigits [c] = [c]) :
    plainDigits cs = cs := by
  induction cs with
  | nil => rfl
  | cons c cs ih =>
    rw [List.forall_mem_cons] at h
    show plainDigits [c] ++ plainDigits cs = c :: cs
    rw [h.1, ih h.2]
    rfl

theorem plainDigits_of_plain {cs : List Char} (h : ∀ c ∈ cs, c ∈ integerChars) :
    plainDigits cs = cs := by
  have key : ∀ c ∈ integerChars, plainDigits [c] = [c] := forall_mem_of_all (by decide)
  exact plainDigits_eq_self fun c hc => key c (h c hc)

/-- A text without underscores has no grouping. -/
theorem ungroup?_of_forall_ne {cs : List Char} (h : ∀ c ∈ cs, c ≠ '_') (prev : Char) :
    ungroup? prev cs = some cs := by
  induction cs generalizing prev with
  | nil => rfl
  | cons c cs ih =>
    rw [List.forall_mem_cons] at h
    rw [ungroup?.eq_def]
    simp only [if_neg h.1, ih h.2, Option.map_some]

theorem normalize?_of_plain {cs : List Char} (h : ∀ c ∈ cs, c ∈ integerChars) :
    normalize? cs = some cs := by
  have ht : trim isMargin cs = cs := trim_of_forall_not fun c hc => isMargin_eq_false c (h c hc)
  rw [normalize?, ht, plainDigits_of_plain h,
    ungroup?_of_forall_ne fun c hc => ne_underscore c (h c hc)]

theorem natural?_eq_some_iff {cs : List Char} {n : Nat} :
    natural? cs = some n ↔ cs ≠ [] ∧ (∀ c ∈ cs, isPlainDigit c = true) ∧ n = valueOf cs := by
  rw [natural?]
  split
  · next h =>
    rw [Bool.and_eq_true, decide_eq_true_eq, List.all_eq_true] at h
    rw [Option.some.injEq]
    exact ⟨fun hn => ⟨h.1, h.2, hn.symm⟩, fun hn => hn.2.2.symm⟩
  · next h =>
    constructor
    · rintro ⟨⟩
    · rintro ⟨hne, hd, -⟩
      refine absurd ?_ h
      rw [Bool.and_eq_true, decide_eq_true_eq, List.all_eq_true]
      exact ⟨hne, hd⟩

theorem natural?_digits (n : Nat) : natural? (digits n) = some n :=
  natural?_eq_some_iff.mpr
    ⟨digits_ne_nil n, fun _ hc => isPlainDigit_of_mem_digits hc, (valueOf_digits n).symm⟩

theorem splitSign_digits (n : Nat) : splitSign (digits n) = (false, digits n) := by
  have hp : ∀ cs, digits n ≠ '+' :: cs := by
    intro cs h
    have hmem : '+' ∈ digits n := by rw [h]; exact List.mem_cons_self
    exact absurd (isDigit_of_mem_digits hmem) (by decide)
  unfold splitSign
  split
  · next cs h => exact absurd h (digits_ne_minus_cons n cs)
  · next cs h => exact absurd h (hp cs)
  · rfl

theorem digits_of_intText (n : Int) : (splitSign (intText n)).2 = digits n.natAbs := by
  cases n with
  | ofNat n => rw [intText, splitSign_digits]; rfl
  | negSucc n => rfl

theorem signedNatural?_intText (n : Int) : signedNatural? (intText n) = some n := by
  cases n with
  | ofNat n => simp [intText, signedNatural?, splitSign_digits, natural?_digits]
  | negSucc n => simp [intText, signedNatural?, splitSign, natural?_digits, Int.negSucc_eq]

/-- What `intText` writes is read back, if it is what writable integers are written as. -/
theorem readInt?_intText (n : Int) :
    readInt? (intText n) = if isWritable n then some n else none := by
  rw [readInt?, normalize?_of_plain fun c hc => mem_integerChars_of_mem_intText hc]
  simp only [digits_of_intText, signedNatural?_intText, isWritable, decide_eq_true_eq]

end ItemStore.Number
