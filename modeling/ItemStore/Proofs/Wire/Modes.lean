import ItemStore.Proofs.Number.Grammar
import ItemStore.Proofs.Wire.Nodes

/-
  The two ways of reading numbers side by side. Default reading takes a text without a point and an
  exponent for an integer and any other for a binary64 number; decimal reading takes all of them
  for decimals. Both read the numbers of one grammar, but not the same texts. Decimal reading alone
  accepts the names of infinities and not-a-numbers, and what default reading finds fault with
  though it is a number: underscores that group no digits, the information separators as white
  space, integers with more digits than an integer may have (`IsStrict`). It alone refuses what is
  out of the range of decimals.

  `IsRegular` says of a text that none of this makes a difference to it, and it is exactly the
  condition under which both modes accept a text or both refuse it (`isRegular_iff`,
  `modes_agree`). So a tree of wire values whose number texts are regular is read in both modes or
  in none. The range of decimals is that of their exponent; how a binary64 number is rounded is not
  asked here.
-/

namespace ItemStore

open Number Text

namespace Value

theorem readNumber_text_eq_ok_iff {d : Bool} {s : String} {x : Value} :
    readNumber d (.text s) = .ok x ↔ writtenNumber? d s = some x := by
  rw [readNumber_eq_elim]
  cases writtenNumber? d s with
  | none =>
    constructor
    · rintro ⟨⟩
    · rintro ⟨⟩
  | some y => rw [Option.elim_some, Except.ok.injEq, Option.some.injEq]

/-! ## Default reading -/

theorem isFractional_eq (s : String) :
    isFractional s = hasFraction (bare (within isMargin s.toList)) := by
  rw [hasFraction_bare, hasFraction_within (by decide +kernel) (by decide +kernel)
    (by decide +kernel)]
  rfl

/-- The number that default reading gives for a number text. -/
def plainNumber (s : String) (negative : Bool) (c : Nat) (e : Int) : Value :=
  if isFractional s then .float (.ofDecimal negative c e)
  else .int (if negative then -(c : Int) else c)

/-- What only default reading asks of a text: the white space around it is of the smaller class, its
underscores group digits, and where it has neither a point nor an exponent it is short enough for an
integer. -/
structure IsStrict (s : String) : Prop where
  margins : trim isBlank s.toList = trim isMargin s.toList
  grouped : Groups ' ' (within isMargin s.toList)
  short : isFractional s = false → IsShort (bare (within isMargin s.toList))

theorem IsStrict.within_eq {s : String} (h : IsStrict s) :
    within isBlank s.toList = within isMargin s.toList :=
  congrArg plainDigits h.margins

/-- Default reading takes the texts of the grammar that are strict. -/
theorem readNumber_false_iff {s : String} {x : Value} :
    readNumber false (.text s) = .ok x ↔ IsStrict s ∧
      ∃ negative c e, Signed (bare (within isBlank s.toList)) negative c e ∧
        x = plainNumber s negative c e := by
  have hfraction := isFractional_eq s
  have hstrict : (IsStrict s ∧
      ∃ negative c e, Signed (bare (within isBlank s.toList)) negative c e ∧
        x = plainNumber s negative c e) ↔
      Groups ' ' (within isMargin s.toList) ∧
        (isFractional s = false → IsShort (bare (within isMargin s.toList))) ∧
        ∃ negative c e, Signed (bare (within isMargin s.toList)) negative c e ∧
          x = plainNumber s negative c e := by
    constructor
    · rintro ⟨h, negative, c, e, hsigned, rfl⟩
      exact ⟨h.grouped, h.short, negative, c, e, h.within_eq ▸ hsigned, rfl⟩
    · rintro ⟨hgroups, hshort, negative, c, e, hsigned, rfl⟩
      have h : IsStrict s := ⟨hsigned.trim_isBlank, hgroups, hshort⟩
      exact ⟨h, negative, c, e, h.within_eq ▸ hsigned, rfl⟩
  rw [hstrict, readNumber_text_eq_ok_iff, writtenNumber?, if_neg Bool.false_ne_true]
  simp only [plainNumber]
  cases hs : isFractional s with
  | true =>
    rw [hs] at hfraction
    rw [if_pos rfl, Option.map_eq_some_iff]
    simp only [readBinary64?_eq_some_iff hfraction.symm, if_true]
    constructor
    · rintro ⟨_, ⟨hgroups, negative, c, e, hsigned, rfl⟩, rfl⟩
      exact ⟨hgroups, fun h => absurd h.symm Bool.false_ne_true, negative, c, e, hsigned, rfl⟩
    · rintro ⟨hgroups, -, negative, c, e, hsigned, rfl⟩
      exact ⟨_, ⟨hgroups, negative, c, e, hsigned, rfl⟩, rfl⟩
  | false =>
    rw [hs] at hfraction
    rw [if_neg Bool.false_ne_true, Option.map_eq_some_iff]
    simp only [readInt?_eq_some_iff hfraction.symm, if_neg Bool.false_ne_true, true_imp_iff]
    constructor
    · rintro ⟨_, ⟨hgroups, hshort, negative, c, hsigned, rfl⟩, rfl⟩
      exact ⟨hgroups, hshort, negative, c, 0, hsigned, rfl⟩
    · rintro ⟨hgroups, hshort, negative, c, e, hsigned, rfl⟩
      obtain rfl := hsigned.exponent_of_hasFraction hfraction.symm
      exact ⟨_, ⟨hgroups, hshort, negative, c, hsigned, rfl⟩, rfl⟩

/-! ## Decimal reading -/

theorem readNumber_true_iff {s : String} {x : Value} :
    readNumber true (.text s) = .ok x ↔
      ∃ d, readDecimal? s.toList = some d ∧ .decimal d = x := by
  rw [readNumber_text_eq_ok_iff, writtenNumber?, if_pos rfl, Option.map_eq_some_iff]

/-- Only a number that decimals reach is read as a finite decimal. -/
theorem inRange_of_readDecimal? {cs : List Char} {negative : Bool} {c : Nat} {e : Int}
    (h : readDecimal? cs = some (.finite negative c e)) : Decimal.inRange c e = true := by
  rw [readDecimal?_of_signed (signed_of_readDecimal? h)] at h
  split at h
  · next hrange => exact hrange
  · cases h

/-! ## Both -/

/-- A text with nothing in it that makes one mode accept it and the other refuse it. -/
structure IsRegular (s : String) : Prop where
  /-- It names no infinity and no not-a-number. -/
  finite : ∀ d, readDecimal? s.toList = some d → d.isFinite = true
  /-- If it writes a number that decimals reach, it is as default reading asks. -/
  strict : ∀ negative c e, Signed (bare (within isBlank s.toList)) negative c e →
    Decimal.inRange c e = true → IsStrict s
  /-- If it is as default reading asks, decimals reach the number that it writes. -/
  inRange : IsStrict s → ∀ negative c e,
    Signed (bare (within isBlank s.toList)) negative c e → Decimal.inRange c e = true

/-- The modes agree on just the regular texts. -/
theorem isRegular_iff {s : String} : IsRegular s ↔
    ((∃ x, readNumber false (.text s) = .ok x) ↔ ∃ y, readNumber true (.text s) = .ok y) := by
  constructor
  · intro h
    constructor
    · rintro ⟨x, hx⟩
      obtain ⟨hstrict, negative, c, e, hsigned, -⟩ := readNumber_false_iff.mp hx
      have hread := (readDecimal?_of_signed hsigned).trans
        (if_pos (h.inRange hstrict negative c e hsigned))
      exact ⟨_, readNumber_true_iff.mpr ⟨_, hread, rfl⟩⟩
    · rintro ⟨y, hy⟩
      obtain ⟨d, hd, -⟩ := readNumber_true_iff.mp hy
      have hfinite := h.finite d hd
      cases d with
      | finite negative c e =>
        have hsigned := signed_of_readDecimal? hd
        have hstrict := h.strict negative c e hsigned (inRange_of_readDecimal? hd)
        exact ⟨_, readNumber_false_iff.mpr ⟨hstrict, negative, c, e, hsigned, rfl⟩⟩
      | infinity => cases hfinite
      | nan => cases hfinite
  · intro h
    refine ⟨fun d hd => ?_, fun negative c e hsigned hrange => ?_,
      fun hstrict negative c e hsigned => ?_⟩
    · obtain ⟨x, hx⟩ := h.mpr ⟨_, readNumber_true_iff.mpr ⟨d, hd, rfl⟩⟩
      obtain ⟨-, negative, c, e, hsigned, -⟩ := readNumber_false_iff.mp hx
      rw [readDecimal?_of_signed hsigned] at hd
      split at hd
      · cases hd
        rfl
      · cases hd
    · have hread := (readDecimal?_of_signed hsigned).trans (if_pos hrange)
      obtain ⟨x, hx⟩ := h.mpr ⟨_, readNumber_true_iff.mpr ⟨_, hread, rfl⟩⟩
      exact (readNumber_false_iff.mp hx).1
    · obtain ⟨y, hy⟩ := h.mp ⟨_, readNumber_false_iff.mpr ⟨hstrict, negative, c, e, hsigned, rfl⟩⟩
      obtain ⟨d, hd, -⟩ := readNumber_true_iff.mp hy
      rw [readDecimal?_of_signed hsigned] at hd
      split at hd
      · next hrange => exact hrange
      · cases hd

/-- What both modes accept they give the same number for. -/
theorem same_of_readNumber {s : String} {x y : Value}
    (hx : readNumber false (.text s) = .ok x) (hy : readNumber true (.text s) = .ok y) :
    ∃ negative c e, Signed (bare (within isBlank s.toList)) negative c e ∧
      x = plainNumber s negative c e ∧ y = .decimal (.finite negative c e) := by
  obtain ⟨-, negative, c, e, hsigned, rfl⟩ := readNumber_false_iff.mp hx
  obtain ⟨d, hd, rfl⟩ := readNumber_true_iff.mp hy
  rw [readDecimal?_of_signed hsigned] at hd
  split at hd
  · cases hd
    exact ⟨negative, c, e, hsigned, rfl, rfl⟩
  · cases hd

/-! ## Items -/

/-- Whether a wire value is sound depends on the mode only through the texts of numbers. -/
theorem IsSound.of_regular {d d' : Bool} {w : Value} (h : IsSound d w)
    (hs : ∀ s, w = Wire.tagged .n (.text s) → IsRegular s) : IsSound d' w := by
  obtain ⟨t, payload, rfl, hnumber⟩ := h
  refine ⟨t, payload, rfl, fun ht => ?_⟩
  obtain ⟨s, x, rfl, hx⟩ := hnumber ht
  subst ht
  have hmodes := isRegular_iff.mp (hs s rfl)
  obtain ⟨y, hy⟩ : ∃ y, readNumber d' (.text s) = .ok y := by
    cases d <;> cases d'
    · exact ⟨x, hx⟩
    · exact hmodes.mp ⟨x, hx⟩
    · exact hmodes.mpr ⟨x, hx⟩
    · exact ⟨x, hx⟩
  exact ⟨s, y, rfl, hy⟩

/-- What goes by regular wire values in one mode is answered if it is in the other. -/
theorem GoesBy.exists_ok_of_regular {d d' : Bool} {α : Type} {ws : List Value} {x y : Outcome α}
    (hx : GoesBy d ws x) (hy : GoesBy d' ws y)
    (hs : ∀ s, Wire.tagged .n (.text s) ∈ ws → IsRegular s) (h : ∃ a, x = .ok a) :
    ∃ a, y = .ok a := by
  rw [hx.exists_ok_iff] at h
  rw [hy.exists_ok_iff]
  exact fun w hw => (h w hw).of_regular fun s hws => hs s (hws ▸ hw)

/-- Both modes accept a text or both refuse it just if it is regular, and what is refused is told as
a marshalling failure. What both accept is the same number; without point and exponent it is an
integer. So an item whose number texts are regular is read in both modes or in none. -/
theorem modes_agree (s : String) (es : List (Value × Value)) :
    (IsRegular s ↔ ((∃ x, readNumber false (.text s) = .ok x) ↔
      ∃ y, readNumber true (.text s) = .ok y)) ∧
    (∀ d, (∃ x, readNumber d (.text s) = .ok x) ∨ ∃ message cause,
      readNumber d (.text s) = .error (.marshal message (Wire.tagged .n (.text s)) cause)) ∧
    (∀ x y, readNumber false (.text s) = .ok x → readNumber true (.text s) = .ok y →
      ∃ negative c e, x = plainNumber s negative c e ∧ y = .decimal (.finite negative c e) ∧
        (isFractional s = false → e = 0)) ∧
    ((∀ e ∈ es, IsTree e.2) →
      (∀ s, Wire.tagged .n (.text s) ∈ nodesFields es → IsRegular s) →
      ((∃ v, fromItem false (.map es) = .ok v) ↔ ∃ v, fromItem true (.map es) = .ok v)) := by
  refine ⟨isRegular_iff, fun d => ?_, fun x y hx hy => ?_, fun htrees hs => ?_⟩
  · obtain ⟨message, cause, hobjection⟩ := exists_objection d (Wire.tagged .n (.text s))
    rcases readNumber_text_cases d s with hok | herror
    · exact .inl hok
    · exact .inr ⟨message, cause, hobjection ▸ herror⟩
  · have hstrict := (readNumber_false_iff.mp hx).1
    obtain ⟨negative, c, e, hsigned, rfl, rfl⟩ := same_of_readNumber hx hy
    refine ⟨negative, c, e, rfl, rfl, fun hplain => ?_⟩
    rw [isFractional_eq, ← hstrict.within_eq] at hplain
    exact hsigned.exponent_of_hasFraction hplain
  · have hgoes := fun d => fromItem_goes htrees d
    exact ⟨(hgoes false).exists_ok_of_regular (hgoes true) hs,
      (hgoes true).exists_ok_of_regular (hgoes false) hs⟩

/-- An item with a number that groups its digits. -/
def groupedItem : List (Value × Value) :=
  [(.text "a", Wire.tagged .n (.text " 1_0 "))]

theorem modes_agree_grouped :
    IsRegular " 1_0 " ∧ ∃ v, fromItem true (.map groupedItem) = .ok v := by
  obtain ⟨hregular_iff, -, -, hitem⟩ := modes_agree " 1_0 " groupedItem
  have hdecimal : readNumber true (.text " 1_0 ") = .ok (.decimal (.finite false 10 0)) :=
    readNumber_true_iff.mpr ⟨_, by decide +kernel, rfl⟩
  have hplain : ∃ x, readNumber false (.text " 1_0 ") = .ok x := ⟨.int 10, rfl⟩
  have hregular : IsRegular " 1_0 " := hregular_iff.mpr (iff_of_true hplain ⟨_, hdecimal⟩)
  have htrees : ∀ e ∈ groupedItem, IsTree e.2 :=
    List.forall_mem_singleton.mpr (isTree_leaf ⟨_, rfl⟩ nofun nofun)
  refine ⟨hregular, (hitem htrees fun s hs => ?_).mp ⟨_, rfl⟩⟩
  have htext := (Wire.eq_of_tagged (List.mem_singleton.mp hs)).2
  rw [text.inj htext]
  exact hregular

theorem not_modes_agree : ¬∀ s, (∃ x, readNumber false (.text s) = .ok x) ↔
    ∃ y, readNumber true (.text s) = .ok y := by
  intro h
  obtain ⟨x, hx⟩ := (h "NaN").mpr ⟨.decimal (.nan false false 0), by rfl⟩
  have hrefused : (readNumber false (.text "NaN")).isOk = false := by decide +kernel
  rw [hx] at hrefused
  cases hrefused

/-- Each of the other conditions leaves out a text of one mode as well. -/
example :
    (readNumber true (.text "\u001c1")).isOk = true ∧
      (readNumber false (.text "\u001c1")).isOk = false ∧
    (readNumber true (.text "1__0")).isOk = true ∧ (readNumber false (.text "1__0")).isOk = false ∧
    (readNumber true (.text "1e1000000000000000000")).isOk = false ∧
      (readNumber false (.text "1e1000000000000000000")).isOk = true := by
  decide +kernel

end Value

end ItemStore
