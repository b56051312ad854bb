import ItemStore.Proofs.Expression.Condition
import ItemStore.Proofs.Expression.Pieces
import ItemStore.Proofs.Wire.Formed
import ItemStore.Proofs.Wire.Nodes

/-
  What is bound is read back. Where literal types are inferred, a value is bound for a text or
  binary literal, for a word for null or a boolean, and for a number that does not start the
  expression; each is a wire value that is read in both number modes (`compile_readable`). A number
  of the language has digits of any script. Default reading takes it for the integer that it writes
  if it has no fraction, and decimal reading for the decimal with the same sign and digits.

  To the readers a number of the language is the numeral that it is in ASCII (`Numeral.ascii`), and
  of numerals it is known how they are read. Decimals have a range, and a number needs 10^18
  digits to be out of it: so for decimal mode the source is asked to be shorter than that. Default
  reading asks nothing.
-/

namespace ItemStore

open Text

namespace Expression

open Lexeme Skeleton Value

/-! ## Numbers of the language -/

namespace Numeral

/-- The digits behind the point. -/
def places (n : Numeral) : List Char :=
  n.fraction.elim [] Digits.chars

/-- The integer in front of the point, with the sign. -/
def integer (n : Numeral) : Int :=
  if n.isNegative then -(Number.valueOf n.whole.chars : Int) else Number.valueOf n.whole.chars

/-- How many units of its last digit a number counts, whatever its sign. -/
def units (n : Numeral) : Nat :=
  Number.valueOf n.whole.chars * Nat.pow 10 n.places.length + Number.valueOf n.places

theorem isDigit_of_mem_places (n : Numeral) : ∀ c ∈ n.places, isDigit c = true := by
  rw [places]
  cases n.fraction with
  | none => exact List.forall_mem_nil _
  | some f => exact f.isDigit_of_mem

/-- The sign, the digits and the point. -/
theorem text_eq (n : Numeral) : n.text = Number.Decimal.signText n.isNegative ++
    (n.whole.chars ++ Number.Numeral.fractionText n.places) := by
  obtain ⟨isNegative, whole, fraction⟩ := n
  have hunsigned : Numeral.unsigned ⟨isNegative, whole, fraction⟩ = whole.chars ++
      Number.Numeral.fractionText (Numeral.places ⟨isNegative, whole, fraction⟩) := by
    cases fraction with
    | none => exact (List.append_nil _).symm
    | some f =>
      rw [places, Option.elim_some, Number.Numeral.fractionText, if_neg f.ne_nil]
      rfl
  rw [text, hunsigned]
  cases isNegative <;> rfl

/-- A number with its digits in ASCII. -/
def ascii (n : Numeral) : Number.Numeral where
  negative := n.isNegative
  whole := Number.plainDigits n.whole.chars
  fraction := Number.plainDigits n.places
  power := none
  whole_ne := mt List.map_eq_nil_iff.mp n.whole.ne_nil
  whole_digits := Number.isPlainDigit_of_mem_plainDigits n.whole.isDigit_of_mem
  fraction_digits := Number.isPlainDigit_of_mem_plainDigits n.isDigit_of_mem_places

theorem forall_mem_text (n : Numeral) :
    ∀ c ∈ n.text, isDigit c = true ∨ c = '-' ∨ c = '.' := by
  have hsign : ∀ c ∈ Number.Decimal.signText n.isNegative,
      isDigit c = true ∨ c = '-' ∨ c = '.' := by
    cases n.isNegative with
    | false => exact List.forall_mem_nil _
    | true => exact List.forall_mem_singleton.mpr (.inr (.inl rfl))
  have hfraction : ∀ c ∈ Number.Numeral.fractionText n.places,
      isDigit c = true ∨ c = '-' ∨ c = '.' := by
    rw [Number.Numeral.fractionText]
    split
    · exact List.forall_mem_nil _
    · exact List.forall_mem_cons.mpr
        ⟨.inr (.inr rfl), fun c hc => .inl (n.isDigit_of_mem_places c hc)⟩
  rw [text_eq]
  exact List.forall_mem_append.mpr ⟨hsign, List.forall_mem_append.mpr
    ⟨fun c hc => .inl (n.whole.isDigit_of_mem c hc), hfraction⟩⟩

theorem plainDigits_text (n : Numeral) : Number.plainDigits n.text = n.ascii.text := by
  have hsign : Number.plainDigits (Number.Decimal.signText n.isNegative) =
      Number.Decimal.signText n.isNegative := by
    cases n.isNegative <;> decide
  have hfraction : Number.plainDigits (Number.Numeral.fractionText n.places) =
      Number.Numeral.fractionText (Number.plainDigits n.places) := by
    cases n.places with
    | nil => rfl
    | cons c cs => rfl
  rw [text_eq, Number.plainDigits_append, Number.plainDigits_append, hsign, hfraction,
    Number.Numeral.text, Number.Numeral.body]
  exact congrArg _ (congrArg _ (List.append_nil _).symm)

theorem isWritten (n : Numeral) : n.ascii.IsWritten n.text where
  isBlank_of_mem := by
    intro c hc
    rcases n.forall_mem_text c hc with h | rfl | rfl
    · exact isBlank_of_isWord (isWord_of_isDigit h)
    · decide
    · decide
  ne_of_mem := by
    intro c hc
    rcases n.forall_mem_text c hc with h | rfl | rfl
    · exact ne_of_class h (by decide)
    · decide
    · decide
  plainDigits_eq := n.plainDigits_text

theorem coefficient_ascii (n : Numeral) : n.ascii.coefficient = n.units := by
  rw [Number.Numeral.coefficient, ascii, Number.valueOf_append, Number.length_plainDigits,
    Number.valueOf_plainDigits, Number.valueOf_plainDigits, units]

theorem exponent_ascii (n : Numeral) : n.ascii.exponent = -(n.places.length : Int) := by
  rw [Number.Numeral.exponent, ascii, Number.length_plainDigits]
  exact Int.zero_sub _

theorem isWhole_ascii {n : Numeral} (h : n.fraction = none) : n.ascii.isWhole = true := by
  have hplaces : n.places = [] := by rw [places, h]; rfl
  show ((Number.plainDigits n.places).isEmpty && true) = true
  rw [hplaces]
  rfl

theorem isWhole_ascii_of_fraction {n : Numeral} (h : n.fraction ≠ none) :
    n.ascii.isWhole = false := by
  obtain ⟨f, hf⟩ := Option.ne_none_iff_exists'.mp h
  have hplaces : n.places = f.chars := by rw [places, hf]; rfl
  show ((Number.plainDigits n.places).isEmpty && true) = false
  rw [Bool.and_true, hplaces, List.isEmpty_eq_false_iff]
  exact mt List.map_eq_nil_iff.mp f.ne_nil

theorem isShort_ascii (n : Numeral) :
    n.ascii.whole.length ≤ Number.maxDigits ↔ n.whole.chars.length ≤ Number.maxDigits := by
  rw [ascii, Number.length_plainDigits]

/-- A number with a fraction is a binary64 number. -/
theorem exists_plain_ascii {n : Numeral} (h : n.fraction ≠ none) :
    ∃ x, n.ascii.plain = .float x := by
  rw [Number.Numeral.plain, isWhole_ascii_of_fraction h]
  exact ⟨_, rfl⟩

/-- A number without a fraction is the integer in front of the point. -/
theorem plain_ascii {n : Numeral} (h : n.fraction = none) : n.ascii.plain = .int n.integer := by
  have hplaces : n.places = [] := by rw [places, h]; rfl
  have hunits : n.units = Number.valueOf n.whole.chars := by
    rw [units, hplaces]
    exact Nat.mul_one _
  rw [Number.Numeral.plain, if_pos (isWhole_ascii h), Number.Numeral.integer, coefficient_ascii,
    hunits, integer]
  rfl

/-- A number is as long as its digits, and longer. -/
theorem size_ascii_le (n : Numeral) : n.ascii.size ≤ n.text.length := by
  have hfraction : n.places.length ≤ (Number.Numeral.fractionText n.places).length := by
    rw [Number.Numeral.fractionText]
    split
    · next h => exact Nat.le_of_eq (congrArg List.length h)
    · exact Nat.le_succ _
  rw [Number.Numeral.size, ascii, Number.length_plainDigits, Number.length_plainDigits, text_eq,
    List.length_append, List.length_append]
  show _ + 0 ≤ _
  omega

/-- In decimal mode a number is read with all its digits. -/
theorem readNumber_decimal {n : Numeral} (h : n.text.length ≤ 999999999999999999) :
    readNumber true (.text (String.ofList n.text)) =
      .ok (.decimal (.finite n.isNegative n.units (-(n.places.length : Int)))) := by
  have hrange : n.ascii.InRange :=
    Number.Numeral.inRange_of_size (Nat.le_trans n.size_ascii_le h)
  rw [n.isWritten.readNumber_decimal hrange, coefficient_ascii, exponent_ascii]
  rfl

end Numeral

/-! ## Values that are bound -/

/-- A literal that is no number and no set. -/
def Literal.isScalar : Literal → Bool
  | .string _ | .binary _ | .null | .boolean _ => true
  | _ => false

theorem Literal.readable_of_isScalar {l : Literal} (h : l.isScalar = true) :
    (∀ decimalNumbers, ∃ v, fromWire decimalNumbers l.wire = .ok v) ∧
      ∀ payload, l.wire ≠ Wire.tagged .n payload := by
  cases l with
  | string payload => exact ⟨fun _ => ⟨_, rfl⟩, fun _ h => nomatch (Wire.eq_of_tagged h).1⟩
  | binary payload => exact ⟨fun _ => ⟨_, rfl⟩, fun _ h => nomatch (Wire.eq_of_tagged h).1⟩
  | null => exact ⟨fun _ => ⟨_, rfl⟩, fun _ h => nomatch (Wire.eq_of_tagged h).1⟩
  | boolean b => exact ⟨fun _ => ⟨_, rfl⟩, fun _ h => nomatch (Wire.eq_of_tagged h).1⟩
  | _ => cases h

namespace Inferred

theorem isScalar_of_wordLiteral? {w : List Char} {l : Literal} (h : wordLiteral? w = some l) :
    l.isScalar = true := by
  unfold wordLiteral? at h
  dsimp only at h
  split at h
  · cases h
    rfl
  · split at h
    · cases h
      rfl
    · split at h
      · cases h
        rfl
      · cases h

theorem value_not_mem_verbatim (l : Literal) (cs : List Char) : .value l ∉ verbatim cs := by
  intro h
  obtain ⟨c, -, hc⟩ := List.mem_map.mp h
  cases hc

theorem value_not_mem_ofPath (l : Literal) (segments : List Segment) :
    .value l ∉ ofPath segments := by
  induction segments with
  | nil => exact nofun
  | cons s segments ih =>
    have hsegment : .value l ∉ ofSegment s :=
      List.not_mem_cons_of_ne_of_not_mem nofun (value_not_mem_verbatim l s.suffix)
    cases segments with
    | nil => exact hsegment
    | cons t segments =>
      show .value l ∉ ofSegment s ++ .char '.' :: ofPath (t :: segments)
      rw [List.mem_append, not_or]
      exact ⟨hsegment, List.not_mem_cons_of_ne_of_not_mem nofun ih⟩

/-- A path gives no value but that of a word. -/
theorem isScalar_of_mem_pathPieces {ctx : Context} {t : Token} {next : Option Token} {l : Literal}
    (h : .value l ∈ pathPieces ctx t next) : l.isScalar = true := by
  rcases pathPieces_cases ctx t next with ⟨hp, -⟩ | ⟨w, l', hw, hp⟩ | hp
  · exact absurd (hp ▸ h) (value_not_mem_verbatim l t.text)
  · rw [hp] at h
    obtain rfl : l = l' := Piece.value.inj (List.mem_singleton.mp h)
    exact isScalar_of_wordLiteral? hw
  · exact absurd (hp ▸ h) (value_not_mem_ofPath l t.segments)

/-- A token gives its number, or a value that is no number. -/
theorem number_of_mem_pieces {ctx : Context} {t : Token} {next : Option Token} {l : Literal}
    (h : .value l ∈ pieces ctx t next) :
    (t.kind = .number ∧ l = .number t.text) ∨ l.isScalar = true := by
  obtain ⟨kind, text, offset, spaced⟩ := t
  cases kind with
  | string payload =>
    obtain rfl := Piece.value.inj (List.mem_singleton.mp h)
    exact .inr rfl
  | binary payload =>
    obtain rfl := Piece.value.inj (List.mem_singleton.mp h)
    exact .inr rfl
  | number =>
    rw [pieces] at h
    dsimp only at h
    split at h
    · exact .inl ⟨rfl, Piece.value.inj (List.mem_singleton.mp h)⟩
    · exact absurd h (value_not_mem_verbatim l text)
  | path segments => exact .inr (isScalar_of_mem_pathPieces h)
  | _ => exact absurd h (value_not_mem_verbatim l text)

/-- Every value of a skeleton is of one of its tokens. -/
theorem number_of_mem_skeletonFrom {ctx : Context} {ts : List Token} {l : Literal}
    (h : .value l ∈ skeletonFrom ctx ts) :
    (∃ t ∈ ts, t.kind = .number ∧ l = .number t.text) ∨ l.isScalar = true := by
  induction ts generalizing ctx with
  | nil => cases h
  | cons t ts ih =>
    rw [skeletonFrom, List.mem_append, List.mem_append] at h
    rcases h with (h | h) | h
    · rw [gap] at h
      split at h
      · cases List.mem_singleton.mp h
      · cases h
    · exact (number_of_mem_pieces h).imp_left fun hnumber => ⟨t, List.mem_cons_self, hnumber⟩
    · rcases ih h with ⟨u, hu, hnumber⟩ | hscalar
      · exact .inl ⟨u, List.mem_cons_of_mem _ hu, hnumber⟩
      · exact .inr hscalar

end Inferred

/-- Every value that is bound is that of a hole. -/
theorem Skeleton.exists_value_of_mem_values {start : Int} {ps : Skeleton} {e : String × Value}
    (h : e ∈ ps.values start) : ∃ l, .value l ∈ ps ∧ e.2 = l.wire := by
  induction ps generalizing start with
  | nil => cases h
  | cons p ps ih =>
    cases p with
    | value l =>
      rcases List.mem_cons.mp h with rfl | h
      · exact ⟨l, List.mem_cons_self, rfl⟩
      · obtain ⟨l', hl', he⟩ := ih h
        exact ⟨l', List.mem_cons_of_mem _ hl', he⟩
    | _ =>
      obtain ⟨l, hl, he⟩ := ih h
      exact ⟨l, List.mem_cons_of_mem _ hl, he⟩

/-! ## Every expression -/

/-- Every value that is bound is read in both modes, unless it is a number. What is bound as a
number is a number token of the source. Default reading takes it for a binary64 number if it has a
fraction and else for the integer that it writes, or tells it as no number if it has more digits
than an integer has; decimal reading takes a number of less than 10^18 characters for the decimal
with its sign and all its digits. -/
theorem compile_readable {source : String} {start : Int} {c : Compiled}
    (h : compile .inferred start source = .ok c) :
    ∃ tokens, tokenize source.toList = .ok tokens ∧ ∀ e ∈ c.values,
      ((∀ payload, e.2 ≠ Wire.tagged .n payload) →
        ∀ decimalNumbers, ∃ v, fromWire decimalNumbers e.2 = .ok v) ∧
      ∀ payload, e.2 = Wire.tagged .n payload → ∃ t ∈ tokens, ∃ n : Numeral,
        t.kind = .number ∧ t.text = n.text ∧ payload = .text (String.ofList t.text) ∧
        (n.fraction = none → n.whole.chars.length ≤ Number.maxDigits →
          fromWire false e.2 = .ok (.int n.integer)) ∧
        (n.fraction = none → Number.maxDigits < n.whole.chars.length →
          fromWire false e.2 = .error (.marshal ("Invalid number payload: " ++ payload.quoted) e.2
            (some (.fault .badValue)))) ∧
        (n.fraction ≠ none → ∃ x, fromWire false e.2 = .ok (.float x)) ∧
        (t.text.length ≤ 999999999999999999 → fromWire true e.2 =
          .ok (.decimal (.finite n.isNegative n.units (-(n.places.length : Int))))) := by
  obtain ⟨tokens, htokens, rfl⟩ := Inferred.exists_tokens h
  refine ⟨tokens, htokens, fun e he => ?_⟩
  obtain ⟨l, hl, hwire⟩ := Skeleton.exists_value_of_mem_values he
  rcases Inferred.number_of_mem_skeletonFrom hl with ⟨t, ht, hkind, rfl⟩ | hscalar
  · obtain ⟨xs, tail, -, hlegible, -, -, rfl⟩ := tokenize_eq_ok_iff.mp htokens
    have hreads := reads_of_mem_place hlegible ht
    rw [hkind] at hreads
    obtain ⟨n, htext⟩ : ∃ n : Numeral, t.text = n.text := hreads
    have hwire : e.2 = Wire.tagged .n (.text (String.ofList n.text)) := htext ▸ hwire
    refine ⟨fun hno => absurd hwire (hno _), fun payload hpayload =>
      ⟨t, ht, n, hkind, htext, ?_, fun hwhole hshort => ?_, fun hwhole hlong => ?_,
        fun hfraction => ?_, fun hlength => ?_⟩⟩
    · rw [hwire] at hpayload
      rw [htext]
      exact (Wire.eq_of_tagged hpayload).2.symm
    · rw [hwire, ← Numeral.plain_ascii hwhole]
      exact n.isWritten.readNumber_plain fun _ => n.isShort_ascii.mpr hshort
    · obtain rfl := (Wire.eq_of_tagged (hwire.symm.trans hpayload)).2
      rw [hwire]
      exact n.isWritten.readNumber_long fun h =>
        absurd (n.isShort_ascii.mp (h (Numeral.isWhole_ascii hwhole))) (Nat.not_le.mpr hlong)
    · obtain ⟨x, hx⟩ := Numeral.exists_plain_ascii hfraction
      refine ⟨x, ?_⟩
      rw [hwire, ← hx]
      exact n.isWritten.readNumber_plain fun h =>
        absurd (h.symm.trans (Numeral.isWhole_ascii_of_fraction hfraction)) nofun
    · rw [hwire]
      exact Numeral.readNumber_decimal (htext ▸ hlength)
  · obtain ⟨hread, hne⟩ := Literal.readable_of_isScalar hscalar
    rw [hwire]
    exact ⟨fun _ => hread, fun payload hpayload => absurd hpayload (hne payload)⟩

/-- A signed number with a fraction and an integer, both in other digits than ASCII. -/
theorem compile_readable_scripts :
    ∃ c tokens, compile .inferred 1 "a = -\u0663.\u0665 AND b = \u0664\u0662" = .ok c ∧
      tokenize "a = -\u0663.\u0665 AND b = \u0664\u0662".toList = .ok tokens ∧
      c.values = [(":V2", .map [(.text "N", .text "-\u0663.\u0665")]),
        (":V4", .map [(.text "N", .text "\u0664\u0662")])] ∧
      (∀ e ∈ c.values, ∃ t ∈ tokens, t.kind = .number ∧
        e.2 = Wire.tagged .n (.text (String.ofList t.text))) ∧
      c.values.map (fun e => fromWire true e.2) =
        [.ok (.decimal (.finite true 35 (-1))), .ok (.decimal (.finite false 42 0))] := by
  have hskeleton : skeleton .inferred "a = -\u0663.\u0665 AND b = \u0664\u0662".toList = .ok
      (.name ['a'] :: verbatim " = ".toList ++ .value (.number "-\u0663.\u0665".toList) ::
        verbatim " AND ".toList ++ .name ['b'] :: verbatim " = ".toList ++
        [.value (.number "\u0664\u0662".toList)]) :=
    Text.eq_ok_of_toOption (by decide +kernel)
  obtain ⟨c, hc⟩ : ∃ c, compile .inferred 1 "a = -\u0663.\u0665 AND b = \u0664\u0662" = .ok c :=
    ⟨_, by rw [compile, hskeleton]⟩
  have hvalues : c.values = [(":V2", .map [(.text "N", .text "-\u0663.\u0665")]),
      (":V4", .map [(.text "N", .text "\u0664\u0662")])] := by
    rw [compile, hskeleton] at hc
    cases hc
    with_unfolding_all rfl
  obtain ⟨tokens, htokens, hread⟩ := compile_readable hc
  refine ⟨c, tokens, hc, htokens, hvalues, fun e he => ?_, ?_⟩
  · have hpayload : ∃ payload, e.2 = Wire.tagged .n payload := by
      rw [hvalues] at he
      rcases List.mem_cons.mp he with rfl | he
      · exact ⟨_, rfl⟩
      · rw [List.mem_singleton.mp he]
        exact ⟨_, rfl⟩
    obtain ⟨payload, hpayload⟩ := hpayload
    obtain ⟨t, ht, n, hkind, -, rfl, -⟩ := (hread e he).2 payload hpayload
    exact ⟨t, ht, hkind, hpayload⟩
  · rw [hvalues]
    with_unfolding_all rfl

/-! ## Integers that are not read back -/

/-- An integer of ones. -/
def Numeral.ones (count : Nat) : Numeral where
  isNegative := false
  whole := ⟨List.replicate (count + 1) '1', List.cons_ne_nil _ _, fun c hc => by
    rw [List.eq_of_mem_replicate hc]
    decide⟩
  fraction := none

/-- An attribute compared with an integer of ones, as it is compiled. -/
theorem skeleton_ones (count : Nat) :
    skeleton .inferred ("a = ".toList ++ List.replicate (count + 1) '1') =
      .ok (.name ['a'] :: verbatim " = ".toList ++
        [.value (.number (List.replicate (count + 1) '1'))]) :=
  Condition.skeleton_text (.compare
    ⟨⟨.plain ⟨⟨['a'], List.cons_ne_nil _ _, forall_mem_of_all (by decide +kernel)⟩, []⟩, []⟩, [],
      by decide +kernel, fun _ => by decide +kernel⟩
    .eq (.number (.ones count)))

theorem readNumber_ones {count : Nat} (h : Number.maxDigits ≤ count) :
    ∃ e, readNumber false (.text (String.ofList (List.replicate (count + 1) '1'))) = .error e := by
  have hlong : ¬(Numeral.ones count).ascii.IsShort := by
    intro hshort
    have hle := (Numeral.isShort_ascii _).mp (hshort (Numeral.isWhole_ascii rfl))
    rw [Numeral.ones, List.length_replicate] at hle
    omega
  exact ⟨_, (Numeral.ones count).isWritten.readNumber_long hlong⟩

/-- What an integer of more than 4300 digits is bound to is not read in default mode. -/
theorem not_compile_readable :
    ∃ c, compile .inferred 1
        (String.ofList ("a = ".toList ++ List.replicate (4300 + 1) '1')) = .ok c ∧
      c.values = [(":V2", Wire.tagged .n (.text (String.ofList (List.replicate (4300 + 1) '1'))))] ∧
      ∀ e ∈ c.values, ∀ v, fromWire false e.2 ≠ .ok v := by
  obtain ⟨e, he⟩ := readNumber_ones (Nat.le_refl Number.maxDigits)
  have hindex : String.ofList (valuePlaceholder 2) = ":V2" := by decide +kernel
  rw [compile, String.toList_ofList, skeleton_ones 4300, ← hindex]
  refine ⟨_, rfl, rfl, fun entry hentry v hv => ?_⟩
  rw [List.mem_singleton.mp hentry] at hv
  cases he.symm.trans hv

end Expression

end ItemStore
