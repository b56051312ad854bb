import ItemStore.Text.Blank
import ItemStore.Text.Digit
import ItemStore.Text.Letter
import ItemStore.Text.Word

/-
  How the classes of characters lie to each other: every decimal digit is a word character, no
  word character is white space, what is a small ASCII letter in lower case is a word character and
  no digit, and a digit is the same in upper case. The first two are read off the tables, range by
  range (`Ranges.has_of_covers`, `Ranges.has_eq_false_of_apart`).
-/

namespace ItemStore.Text

namespace Ranges

/-- Every range lies within one of the others. -/
def covers (rs' rs : Ranges) : Bool :=
  rs.all fun r => rs'.any fun r' => Nat.ble r'.1 r.1 && Nat.ble r.2 r'.2

/-- No range meets one of the others. -/
def apart (rs rs' : Ranges) : Bool :=
  rs.all fun r => rs'.all fun r' => Nat.blt r.2 r'.1 || Nat.blt r'.2 r.1

theorem has_iff {rs : Ranges} {c : Char} :
    rs.has c = true ↔ ∃ r ∈ rs, r.1 ≤ c.toNat ∧ c.toNat ≤ r.2 := by
  simp [has]

theorem has_of_covers {rs rs' : Ranges} {c : Char} (h : rs'.covers rs = true)
    (hc : rs.has c = true) : rs'.has c = true := by
  obtain ⟨r, hr, hle⟩ := has_iff.mp hc
  obtain ⟨r', hr', hle'⟩ := List.any_eq_true.mp (List.all_eq_true.mp h r hr)
  rw [Bool.and_eq_true, Nat.ble_eq, Nat.ble_eq] at hle'
  exact has_iff.mpr ⟨r', hr', by omega, by omega⟩

theorem has_eq_false_of_apart {rs rs' : Ranges} {c : Char} (h : rs.apart rs' = true)
    (hc : rs.has c = true) : rs'.has c = false := by
  obtain ⟨r, hr, hle⟩ := has_iff.mp hc
  rw [← Bool.not_eq_true]
  intro hc'
  obtain ⟨r', hr', hle'⟩ := has_iff.mp hc'
  have := List.all_eq_true.mp (List.all_eq_true.mp h r hr) r' hr'
  rw [Bool.or_eq_true, Nat.blt_eq, Nat.blt_eq] at this
  omega

end Ranges

/-- The word characters below 128. -/
def asciiWordRanges : Ranges :=
  [(0x30, 0x39), (0x41, 0x5a), (0x5f, 0x5f), (0x61, 0x7a)]

theorem isWord_eq_has (c : Char) : isWord c = (asciiWordRanges ++ wordRanges).has c := by
  rw [Ranges.has, List.any_append, ← Ranges.has, ← Ranges.has]
  by_cases hc : c.toNat < 128
  · have hascii : Ranges.has [(0, 127)] c = true :=
      Ranges.has_iff.mpr ⟨_, List.mem_singleton.mpr rfl, Nat.zero_le _, Nat.le_of_lt_succ hc⟩
    have hall : ∀ n < 128, isWord (Char.ofNat n) = asciiWordRanges.has (Char.ofNat n) := by
      decide +kernel
    have hsmall := hall c.toNat hc
    rw [Char.ofNat_toNat] at hsmall
    have hlarge : wordRanges.has c = false :=
      Ranges.has_eq_false_of_apart (by decide +kernel) hascii
    rw [hsmall, hlarge, Bool.or_false]
  · have hsmall : asciiWordRanges.has c = false := by
      rw [← Bool.not_eq_true, Ranges.has_iff]
      simp only [asciiWordRanges, List.mem_cons, List.not_mem_nil, or_false]
      rintro ⟨r, rfl | rfl | rfl | rfl, hle⟩ <;> omega
    rw [isWord, if_neg hc, hsmall, Bool.false_or]

/-- A decimal digit is a word character. -/
theorem isWord_of_isDigit {c : Char} (h : isDigit c = true) : isWord c = true := by
  rw [isWord_eq_has]
  exact Ranges.has_of_covers (by decide +kernel) h

/-- A word character is no white space. -/
theorem isBlank_of_isWord {c : Char} (h : isWord c = true) : isBlank c = false := by
  rw [isWord_eq_has] at h
  exact Ranges.has_eq_false_of_apart (by decide +kernel) h

/-- White space is no word character. -/
theorem isWord_of_isBlank {c : Char} (h : isBlank c = true) : isWord c = false := by
  rw [← Bool.not_eq_true]
  intro hw
  rw [isBlank_of_isWord hw] at h
  exact Bool.false_ne_true h

/-! ## Letters -/

/-- A small ASCII letter other than k. -/
def isPlainLetter (c : Char) : Bool :=
  'a' ≤ c && c ≤ 'z' && c != 'k'

theorem toNat_lt_of_lowerForm {c : Char} (h : isPlainLetter (lowerForm c) = true) :
    c.toNat < 128 := by
  unfold lowerForm at h
  split at h
  · exact absurd h (by decide)
  · refine Nat.lt_of_not_le fun hle => ?_
    have hlower : c.toLower = c := by
      unfold Char.toLower
      refine dif_neg fun hupper => ?_
      have := UInt32.le_iff_toNat_le.mp hupper.2
      have : c.val.toNat ≤ 90 := this
      have : c.toNat = c.val.toNat := rfl
      omega
    rw [hlower] at h
    simp only [isPlainLetter, Bool.and_eq_true, decide_eq_true_eq] at h
    have := UInt32.le_iff_toNat_le.mp h.1.2
    have : c.val.toNat ≤ 122 := this
    have : c.toNat = c.val.toNat := rfl
    omega

/-- What is a small letter in lower case is a letter of one character in upper case too. -/
theorem letter_of_lowerForm {c : Char} (h : isPlainLetter (lowerForm c) = true) :
    isWord c = true ∧ isDigit c = false ∧ (upperForm c).length = 1 := by
  have hall : ∀ n < 128, isPlainLetter (lowerForm (Char.ofNat n)) = true →
      isWord (Char.ofNat n) = true ∧ isDigit (Char.ofNat n) = false ∧
        (upperForm (Char.ofNat n)).length = 1 := by
    decide +kernel
  have hc := hall c.toNat (toNat_lt_of_lowerForm h)
  rw [Char.ofNat_toNat] at hc
  exact hc h

theorem letters_of_lower {w : List Char} (h : (lower w).all isPlainLetter = true) :
    ∀ c ∈ w, isWord c = true ∧ isDigit c = false ∧ (upperForm c).length = 1 := by
  intro c hc
  exact letter_of_lowerForm (List.all_eq_true.mp h _ (List.mem_map.mpr ⟨c, hc, rfl⟩))

/-- A decimal digit is the same in upper case. -/
theorem upperForm_of_isDigit {c : Char} (h : isDigit c = true) : upperForm c = [c] := by
  have hne : ∀ n, isDigit (Char.ofNat n) = false → c.toNat ≠ n := by
    rintro n hn rfl
    rw [Char.ofNat_toNat, h] at hn
    cases hn
  have hletter : Ranges.has [(0x61, 0x7a)] c = false :=
    Ranges.has_eq_false_of_apart (by decide +kernel) h
  have hupper : c.toUpper = c := by
    unfold Char.toUpper
    refine dif_neg fun hlower => ?_
    rw [← Bool.not_eq_true, Ranges.has_iff] at hletter
    exact hletter ⟨_, List.mem_singleton.mpr rfl, UInt32.le_iff_toNat_le.mp hlower.1,
      UInt32.le_iff_toNat_le.mp hlower.2⟩
  unfold upperForm
  split
  case h_11 => rw [hupper]
  all_goals
    next hc => exact absurd hc (hne _ (by decide +kernel))

theorem upper_of_digits {cs : List Char} (h : ∀ c ∈ cs, isDigit c = true) : upper cs = cs := by
  induction cs with
  | nil => rfl
  | cons c cs ih =>
    rw [List.forall_mem_cons] at h
    show upperForm c ++ upper cs = c :: cs
    rw [upperForm_of_isDigit h.1, ih h.2]
    rfl

theorem length_upper {w : List Char} (h : ∀ c ∈ w, (upperForm c).length = 1) :
    (upper w).length = w.length := by
  induction w with
  | nil => rfl
  | cons c w ih =>
    rw [List.forall_mem_cons] at h
    show (upperForm c ++ upper w).length = (c :: w).length
    rw [List.length_append, h.1, ih h.2, List.length_cons, Nat.add_comm]

end ItemStore.Text
