import ItemStore.Proofs.Expression.Paths

/-
  Literals as they are written where their types are inferred: a text between single quotes, in
  which a backslash takes the next character as it is; a number with an optional sign and
  fraction; a word for null, true or false in any case; and a binary text between angle brackets.
  The types hold well-formed literals only.

  Each is scanned from its text exactly (`scanString_units`, `scanNumber_unsigned`,
  `scanBinary_payload`). A literal word is a word of letters that starts with no digit and is no
  keyword (`letters_of_isLiteralWord`, `ofWord?_of_isLiteralWord`).
-/

namespace ItemStore.Expression

open Text

/-! ## Texts -/

/-- A character of a text literal as it is written. -/
inductive StringUnit where
  | plain (c : Char) (isPlain : (c != '\x27' && c != '\\') = true)
  | escaped (c : Char)

namespace StringUnit

/-- The character that is meant. -/
def char : StringUnit → Char
  | .plain c _ => c
  | .escaped c => c

/-- A character as it is written. -/
def text : StringUnit → List Char
  | .plain c _ => [c]
  | .escaped c => ['\\', c]

end StringUnit

/-- A text literal is read to its closing quote, without its backslashes. -/
theorem scanString_units (us : List StringUnit) (rest : List Char) :
    scanString (us.flatMap StringUnit.text ++ '\x27' :: rest) =
      some (us.map StringUnit.char, rest) := by
  induction us with
  | nil =>
    show scanString ('\x27' :: rest) = some ([], rest)
    rw [scanString, if_pos rfl]
    exact fun _ _ h => absurd h (by decide)
  | cons u us ih =>
    rw [List.flatMap_cons, List.append_assoc, List.map_cons]
    cases u with
    | plain c isPlain =>
      have hc := Bool.and_eq_true_iff.mp isPlain
      rw [bne_iff_ne, bne_iff_ne] at hc
      show scanString (c :: (us.flatMap StringUnit.text ++ '\x27' :: rest)) = _
      rw [scanString, if_neg hc.1, ih]
      · rfl
      · exact fun _ _ h => absurd h hc.2
    | escaped c =>
      show scanString ('\\' :: c :: (us.flatMap StringUnit.text ++ '\x27' :: rest)) = _
      rw [scanString, ih]
      rfl

/-! ## Numbers -/

/-- A number as it is written. -/
structure Numeral where
  isNegative : Bool
  whole : Digits
  fraction : Option Digits

namespace Numeral

/-- A number without its sign. -/
def unsigned (n : Numeral) : List Char :=
  match n.fraction with
  | none => n.whole.chars
  | some f => n.whole.chars ++ '.' :: f.chars

/-- A number as text. -/
def text (n : Numeral) : List Char :=
  if n.isNegative then '-' :: n.unsigned else n.unsigned

end Numeral

theorem stops_isDigit {rest : List Char} (h : Stops isWord rest) : Stops isDigit rest :=
  h.mono fun _ => isWord_of_isDigit

theorem startsWord_of_stops {rest : List Char} (h : Stops isWord rest) :
    startsWord rest = false := by
  cases rest with
  | nil => rfl
  | cons c cs =>
    have hc := stops_cons.mp h
    exact hc

/-- A number is read to its last digit. -/
theorem scanNumber_unsigned (n : Numeral) {rest : List Char} (hw : Stops isWord rest)
    (hp : Stops (· == '.') rest) : scanNumber (n.unsigned ++ rest) = some rest := by
  have hwhole := n.whole.isDigit_of_mem
  unfold Numeral.unsigned
  cases n.fraction with
  | none =>
    have htake := takeWhile_run hwhole (stops_isDigit hw)
    have hdrop := dropWhile_run hwhole (stops_isDigit hw)
    dsimp only
    unfold scanNumber
    rw [htake, hdrop]
    cases hchars : n.whole.chars with
    | nil => exact absurd hchars n.whole.ne_nil
    | cons d ds =>
      dsimp only
      split
      · next heq => cases heq
      · next more heq _ => exact absurd (stops_cons.mp hp) (by decide)
      · next heq _ _ =>
        rw [startsWord_of_stops hw]
        rfl
  | some f =>
    have hpoint : Stops isDigit ('.' :: (f.chars ++ rest)) := stops_cons.mpr (by decide)
    have hcons : n.whole.chars ++ '.' :: f.chars ++ rest =
        n.whole.chars ++ '.' :: (f.chars ++ rest) := by
      simp
    have htake := takeWhile_run hwhole hpoint
    have hdrop := dropWhile_run hwhole hpoint
    have htake' := takeWhile_run f.isDigit_of_mem (stops_isDigit hw)
    have hdrop' := dropWhile_run f.isDigit_of_mem (stops_isDigit hw)
    dsimp only
    unfold scanNumber
    rw [hcons, htake, hdrop]
    cases hchars : n.whole.chars with
    | nil => exact absurd hchars n.whole.ne_nil
    | cons d ds =>
      show (if (List.takeWhile isDigit (f.chars ++ rest)).isEmpty ||
          startsWord (List.dropWhile isDigit (f.chars ++ rest)) then
        some ('.' :: (f.chars ++ rest)) else some (List.dropWhile isDigit (f.chars ++ rest))) = _
      rw [htake', hdrop', List.isEmpty_eq_false_iff.mpr f.ne_nil, startsWord_of_stops hw]
      rfl

/-! ## Binary texts -/

theorem scanBinary_of_ne {c : Char} (h : c ≠ '<') (cs : List Char) :
    scanBinary (c :: cs) = none := by
  unfold scanBinary
  split
  · next heq => exact absurd (List.cons.inj heq).1 h
  · rfl

theorem scanBinary_payload {payload : List Char} (hne : payload ≠ [])
    (hp : ∀ c ∈ payload, isBinaryChar c = true) (rest : List Char) :
    scanBinary ('<' :: (payload ++ '>' :: rest)) = some (payload, rest) := by
  have hstops : Stops isBinaryChar ('>' :: rest) := stops_cons.mpr (by decide)
  rw [scanBinary, takeWhile_run hp hstops, dropWhile_run hp hstops]
  cases payload with
  | nil => exact absurd rfl hne
  | cons c cs => rfl

/-! ## Literal words -/

/-- A word is a literal: null, true or false, in any case. -/
def IsLiteralWord (w : List Char) (l : Literal) : Prop :=
  (lower w = "null".toList ∧ l = .null) ∨ (lower w = "true".toList ∧ l = .boolean true) ∨
    (lower w = "false".toList ∧ l = .boolean false)

theorem wordLiteral?_of_isLiteralWord {w : List Char} {l : Literal} (h : IsLiteralWord w l) :
    Inferred.wordLiteral? w = some l := by
  unfold Inferred.wordLiteral?
  rcases h with ⟨hw, rfl⟩ | ⟨hw, rfl⟩ | ⟨hw, rfl⟩
  all_goals
    dsimp only
    rw [hw]
    rfl

/-- A literal word is four or five letters. -/
theorem letters_of_isLiteralWord {w : List Char} {l : Literal} (h : IsLiteralWord w l) :
    (∀ c ∈ w, isWord c = true ∧ isDigit c = false ∧ (upperForm c).length = 1) ∧
      (w.length = 4 ∨ w.length = 5) := by
  have hlength : (lower w).length = w.length := List.length_map lowerForm
  rcases h with ⟨hw, -⟩ | ⟨hw, -⟩ | ⟨hw, -⟩
  · refine ⟨letters_of_lower (by rw [hw]; decide), .inl ?_⟩
    rw [← hlength, hw]
    decide
  · refine ⟨letters_of_lower (by rw [hw]; decide), .inl ?_⟩
    rw [← hlength, hw]
    decide
  · refine ⟨letters_of_lower (by rw [hw]; decide), .inr ?_⟩
    rw [← hlength, hw]
    decide

/-- No keyword has four or five letters. -/
theorem ofWord?_of_isLiteralWord {w : List Char} {l : Literal} (h : IsLiteralWord w l) :
    Keyword.ofWord? w = none := by
  obtain ⟨hletters, hlength⟩ := letters_of_isLiteralWord h
  have hupper := length_upper fun c hc => (hletters c hc).2.2
  rw [Keyword.ofWord?, List.find?_eq_none]
  intro k hk heq
  have hk' : (k.text.toList.length = 4 ∨ k.text.toList.length = 5) := by
    rw [← beq_iff_eq.mp heq, hupper]
    exact hlength
  revert hk'
  cases k <;> decide

/-- A word that is a literal in some case. -/
structure LiteralWord where
  chars : List Char
  literal : Literal
  isLiteral : IsLiteralWord chars literal

/-- The characters of a literal word are a word. -/
def LiteralWord.word (w : LiteralWord) : Word where
  chars := w.chars
  ne_nil := by
    have hlength := (letters_of_isLiteralWord w.isLiteral).2
    intro hnil
    rw [hnil] at hlength
    exact absurd hlength (by decide)
  isWord_of_mem := fun c hc => ((letters_of_isLiteralWord w.isLiteral).1 c hc).1

theorem LiteralWord.all_isDigit (w : LiteralWord) : w.chars.all isDigit = false := by
  obtain ⟨hletters, -⟩ := letters_of_isLiteralWord w.isLiteral
  have hne := w.word.ne_nil
  cases hchars : w.chars with
  | nil => exact absurd hchars hne
  | cons c cs =>
    rw [List.all_cons, (hletters c (by rw [hchars]; exact List.mem_cons_self)).2.1]
    rfl

/-! ## Literals -/

/-- A literal as it is written. -/
inductive Spelling where
  | string (units : List StringUnit)
  | number (n : Numeral)
  | word (w : LiteralWord)
  | binary (payload : List Char) (ne_nil : payload ≠ [])
      (isBinary : ∀ c ∈ payload, isBinaryChar c = true)

namespace Spelling

/-- A literal as text. -/
def text : Spelling → List Char
  | .string units => '\x27' :: (units.flatMap StringUnit.text ++ ['\x27'])
  | .number n => n.text
  | .word w => w.chars
  | .binary payload _ _ => '<' :: (payload ++ ['>'])

/-- The literal that is meant; the text of a number is kept as it is written. -/
def literal : Spelling → Literal
  | .string units => .string (units.map StringUnit.char)
  | .number n => .number n.text
  | .word w => w.literal
  | .binary payload _ _ => .binary payload

end Spelling

end ItemStore.Expression
