import ItemStore.Proofs.Expression.Lexemes
import ItemStore.Proofs.Expression.Literals

/-
  The lexemes that expressions are printed with: paths, bare words (keywords, names of functions
  and literal words), literals, operators, parentheses and commas. Each is scanned from its text
  wherever it may stand: a path needs hyphens to join names where it has some, a literal needs a
  value to be expected unless it reads the same everywhere (`Operand`), and what stands behind
  them has to be white space, a parenthesis, a comma or nothing (`Boundary`).
-/

namespace ItemStore.Expression

open Text Lexeme

/-! ## What may stand behind a path or a literal -/

/-- White space, a parenthesis or a comma. -/
def isBoundary (c : Char) : Bool :=
  isBlank c || c == '(' || c == ')' || c == ','

/-- The text is empty or starts with white space, a parenthesis or a comma. -/
def Boundary (rest : List Char) : Prop :=
  ∀ c ∈ rest.head?, isBoundary c = true

theorem boundary_nil : Boundary [] := by
  simp [Boundary]

theorem boundary_cons {c : Char} {rest : List Char} :
    Boundary (c :: rest) ↔ isBoundary c = true := by
  simp [Boundary]

theorem Boundary.stops {p : Char → Bool} {rest : List Char} (h : Boundary rest)
    (hp : ∀ c, isBoundary c = true → p c = false) : Stops p rest :=
  fun c hc => hp c (h c hc)

/-- Rows of lexemes are legible one behind the other if each is in front of what may follow a path
and starts so itself. -/
theorem legible_flatMap {β : Type} {f : β → List Lexeme}
    (hf : ∀ y prev rest, Boundary rest →
      Legible prev rest (f y) ∧ Boundary (print (f y) ++ rest))
    (prev : Option TokenKind) (ys : List β) {rest : List Char} (h : Boundary rest) :
    Legible prev rest (ys.flatMap f) ∧ Boundary (print (ys.flatMap f) ++ rest) := by
  induction ys generalizing prev with
  | nil => exact ⟨trivial, h⟩
  | cons y ys ih =>
    have hy := hf y prev _ (ih (kindAfter prev (f y))).2
    rw [List.flatMap_cons, print_append, List.append_assoc]
    exact ⟨legible_append.mpr ⟨hy.1, (ih _).1⟩, hy.2⟩

theorem continuesPath_of_isBoundary {c : Char} (h : isBoundary c = true) :
    continuesPath c = false := by
  unfold isBoundary at h
  simp only [Bool.or_eq_true, beq_iff_eq] at h
  rcases h with ((hb | rfl) | rfl) | rfl
  · have hw := isWord_of_isBlank hb
    have hne : ∀ d, isBlank d = false → (c == d) = false := by
      intro d hd
      rw [beq_eq_false_iff_ne]
      rintro rfl
      rw [hb] at hd
      exact Bool.false_ne_true hd.symm
    rw [continuesPath, continuesSegment, hw, hne '-' (by decide), hne '[' (by decide),
      hne '.' (by decide)]
    rfl
  · decide +kernel
  · decide +kernel
  · decide +kernel

theorem Boundary.stops_continuesPath {rest : List Char} (h : Boundary rest) :
    Stops continuesPath rest :=
  h.stops fun _ => continuesPath_of_isBoundary

/-! ## Gaps -/

theorem blank_nil : ∀ c ∈ ([] : List Char), isBlank c = true :=
  nofun

theorem blank_space : ∀ c ∈ [' '], isBlank c = true :=
  forall_mem_of_all (by decide)

/-! ## Paths and words -/

/-- Whether a name can start with a character. -/
def startsName (c : Char) : Bool :=
  isNameQuote c || isWord c

theorem isBlank_of_startsName {c : Char} (h : startsName c = true) : isBlank c = false := by
  rw [startsName, Bool.or_eq_true, isNameQuote, Bool.or_eq_true, beq_iff_eq, beq_iff_eq] at h
  rcases h with (rfl | rfl) | hw
  · decide
  · decide
  · exact isBlank_of_isWord hw

/-- What is no sign of an operator starts none. -/
theorem scanOperator_of_ne {c : Char} (h : ∀ d ∈ ['=', '<', '>', '+', '-'], c ≠ d)
    (cs : List Char) : scanOperator (c :: cs) = none := by
  have hlt := h '<' (by decide)
  have hgt := h '>' (by decide)
  rw [scanOperator]
  · rw [if_neg]
    rw [List.contains_eq_mem, decide_eq_true_eq]
    exact fun hc => h c hc rfl
  · exact fun _ hc => absurd hc hlt
  · exact fun _ hc => absurd hc hlt
  · exact fun _ hc => absurd hc hgt

theorem scanOperator_of_startsName {c : Char} (h : startsName c = true) (cs : List Char) :
    scanOperator (c :: cs) = none := by
  have hsigns : ∀ d ∈ ['=', '<', '>', '+', '-'], startsName d = false :=
    forall_mem_of_all (by decide +kernel)
  exact scanOperator_of_ne (fun d hd => ne_of_class h (hsigns d hd)) cs

theorem scanSignedNumber_of_ne {c : Char} (h : c ≠ '-') (cs : List Char) :
    scanSignedNumber (c :: cs) = none := by
  unfold scanSignedNumber
  split
  · next heq => exact absurd (List.cons.inj heq).1 h
  · rfl

/-- What starts with no sign is a number only by its digits. -/
theorem scanNumberAfter_of_ne {prev : Option Token} {c : Char} {cs : List Char} (h : c ≠ '-')
    (hn : scanNumber (c :: cs) = none) : scanNumberAfter prev (c :: cs) = none := by
  unfold scanNumberAfter
  rw [scanSignedNumber_of_ne h, ite_self]
  exact hn

/-- What starts as a name and not as a number is scanned as a path. -/
theorem scanToken_of_startsName {prev : Option Token} {c : Char} {cs : List Char}
    (hc : startsName c = true) (hn : scanNumber (c :: cs) = none) :
    scanToken prev c cs =
      match scanPath (joinsNames prev) (c :: cs) with
      | .ok (segments, rest) => .ok (.path segments, rest)
      | .error (fault, rest) => .error (fault.toFault 0, rest) := by
  have hne : ∀ d, startsName d = false → c ≠ d := fun d => ne_of_class hc
  have hnumber : scanNumberAfter prev (c :: cs) = none :=
    scanNumberAfter_of_ne (hne '-' (by decide +kernel)) hn
  have hbinary : scanBinary (c :: cs) = none := scanBinary_of_ne (hne '<' (by decide +kernel)) cs
  have hplaceholder : scanPlaceholder (c :: cs) = none := by
    rw [scanPlaceholder, beq_eq_false_iff_ne.mpr (hne '#' (by decide +kernel)),
      beq_eq_false_iff_ne.mpr (hne ':' (by decide +kernel))]
    rfl
  rw [scanToken, if_neg (hne '\x27' (by decide +kernel)), hnumber]
  dsimp only
  rw [hbinary]
  dsimp only
  rw [scanOperator_of_startsName hc]
  dsimp only
  rw [scanWordOrSign, if_neg (hne '(' (by decide +kernel)), if_neg (hne ')' (by decide +kernel)),
    if_neg (hne ',' (by decide +kernel)), hplaceholder]
  exact if_pos (show startsSegment (c :: cs) = true from hc)

/-- What starts as a name and not as a number is a path. -/
theorem scanToken_of_scanPath {prev : Option Token} {c : Char} {cs rest : List Char}
    {segments : List Segment} (hc : startsName c = true) (hn : scanNumber (c :: cs) = none)
    (hp : scanPath (joinsNames prev) (c :: cs) = .ok (segments, rest)) :
    scanToken prev c cs = .ok (.path segments, rest) := by
  rw [scanToken_of_startsName hc hn, hp]

/-- Digits that a word character follows are no number. -/
theorem scanNumber_word {w : Word} (hw : w.chars.all isDigit = false) (rest : List Char) :
    scanNumber (w.chars ++ rest) = none := by
  have hsplit := List.takeWhile_append_dropWhile (p := isDigit) (l := w.chars)
  have hdigits : ∀ c ∈ w.chars.takeWhile isDigit, isDigit c = true :=
    fun c hc => List.all_eq_true.mp List.all_takeWhile c hc
  cases hdrop : w.chars.dropWhile isDigit with
  | nil =>
    rw [hdrop, List.append_nil] at hsplit
    rw [← hsplit, List.all_takeWhile] at hw
    cases hw
  | cons c cs =>
    have hc : isDigit c = false := by
      have := List.head?_dropWhile_not isDigit w.chars
      rw [hdrop] at this
      exact this
    have hword : isWord c = true :=
      w.isWord_of_mem c (by
        rw [← hsplit, hdrop]
        exact List.mem_append_right _ List.mem_cons_self)
    have hstops : Stops isDigit (c :: (cs ++ rest)) := stops_cons.mpr hc
    have hcons : w.chars ++ rest = w.chars.takeWhile isDigit ++ c :: (cs ++ rest) := by
      rw [← List.cons_append, ← List.append_assoc, ← hdrop, hsplit]
    unfold scanNumber
    rw [hcons, takeWhile_run hdigits hstops, dropWhile_run hdigits hstops]
    split
    · rfl
    · next heq =>
      rw [(List.cons.inj heq).1] at hword
      exact absurd hword (by decide +kernel)
    · next heq _ _ =>
      rw [startsWord, hword]
      rfl

theorem scanNumber_of_isNameQuote {c : Char} (h : isNameQuote c = true) (cs : List Char) :
    scanNumber (c :: cs) = none := by
  have hdigit : isDigit c = false := by
    rw [isNameQuote, Bool.or_eq_true, beq_iff_eq, beq_iff_eq] at h
    rcases h with rfl | rfl
    · decide
    · decide
  unfold scanNumber
  rw [List.takeWhile_cons, hdigit]
  rfl

theorem scanNumber_step {s : Step} (hs : s.startsNumber = false) (rest : List Char) :
    scanNumber (s.text ++ rest) = none := by
  unfold Step.text Name.text
  unfold Step.startsNumber at hs
  split at hs
  · next n _ =>
    rw [PlainName.text, List.append_assoc, List.append_assoc]
    exact scanNumber_word hs _
  · next isMark fresh _ => exact scanNumber_of_isNameQuote isMark _

theorem exists_cons_of_step (s : Step) : ∃ c cs, s.text = c :: cs ∧ startsName c = true := by
  have hstarts := startsSegment_name s.name (Digits.indexes s.indexes)
  cases htext : s.text with
  | nil =>
    rw [← Step.text, htext] at hstarts
    cases hstarts
  | cons c cs =>
    rw [← Step.text, htext] at hstarts
    exact ⟨c, cs, rfl, hstarts⟩

/-- Steps joined by points are one token. -/
theorem scans_steps {prev : Option TokenKind} {rest : List Char} (gap : List Char) (s : Step)
    (ss : List Step) (hs : s.startsNumber = false)
    (hn : ∀ t ∈ s :: ss, t.name.isHyphenated = true → joinsNames (before prev) = true)
    (h : Stops continuesPath rest) :
    Scans prev ⟨gap, .path (s.segment :: ss.map Step.segment), s.text ++ Step.pointed ss⟩ rest := by
  obtain ⟨c, cs, hcons, hc⟩ := exists_cons_of_step s
  have hnumber := scanNumber_step hs (Step.pointed ss ++ rest)
  have hpath := scanPath_steps s ss hn h
  rw [hcons] at hnumber hpath
  refine ⟨c, cs ++ Step.pointed ss, ?_, isBlank_of_startsName hc, ?_⟩
  · rw [hcons, List.cons_append]
  · rw [List.append_assoc]
    exact scanToken_of_scanPath hc hnumber hpath

/-- A path with a gap in front. -/
def Path.lexeme (gap : List Char) (p : Path) : Lexeme :=
  ⟨gap, .path p.segments, p.text⟩

theorem scans_path {prev : Option TokenKind} {gap rest : List Char} (p : Path)
    (hn : joinsNames (before prev) = true) (h : Boundary rest) :
    Scans prev (p.lexeme gap) rest :=
  scans_steps gap p.head p.tail p.notNumber (fun _ _ _ => hn) h.stops_continuesPath

/-- A path that has no hyphens. -/
structure PlainPath extends Path where
  notHyphenated : ∀ s ∈ head :: tail, s.name.isHyphenated = false

/-- A path that has no hyphens is the same path after an operator. -/
theorem scans_plainPath {prev : Option TokenKind} {gap rest : List Char} (p : PlainPath)
    (h : Boundary rest) : Scans prev (p.toPath.lexeme gap) rest := by
  refine scans_steps gap p.head p.tail p.notNumber (fun s hs hp => ?_) h.stops_continuesPath
  rw [p.notHyphenated s hs] at hp
  exact absurd hp Bool.false_ne_true

/-- A name alone with a gap in front. -/
def PlainName.lexeme (gap : List Char) (n : PlainName) : Lexeme :=
  ⟨gap, .path [⟨n.text, [], false⟩], n.text⟩

theorem scans_name {prev : Option TokenKind} {gap rest : List Char} (n : PlainName)
    (hd : n.head.chars.all isDigit = false)
    (hn : n.parts ≠ [] → joinsNames (before prev) = true) (h : Stops continuesPath rest) :
    Scans prev (n.lexeme gap) rest := by
  have htext : Step.text ⟨.plain n, []⟩ ++ Step.pointed [] = n.text := by
    simp [Step.text, Step.pointed, Name.text, Digits.indexes]
  have hjoins : ∀ t ∈ [(⟨.plain n, []⟩ : Step)], t.name.isHyphenated = true →
      joinsNames (before prev) = true := by
    intro t ht hp
    refine hn fun hnil => ?_
    rw [List.mem_singleton.mp ht, Name.isHyphenated, hnil] at hp
    cases hp
  obtain ⟨c, cs, hcons, hblank, hscan⟩ := scans_steps gap ⟨.plain n, []⟩ [] hd hjoins h
  exact ⟨c, cs, htext.symm.trans hcons, hblank, hscan⟩

/-- A function's name with a gap in front. -/
def FunctionName.lexeme (gap : List Char) (f : FunctionName) : Lexeme :=
  f.name.lexeme gap

theorem scans_functionName {prev : Option TokenKind} {gap rest : List Char} (f : FunctionName)
    (hn : joinsNames (before prev) = true) (h : Boundary rest) :
    Scans prev (f.lexeme gap) rest :=
  scans_name f.name f.notNumber (fun _ => hn) h.stops_continuesPath

/-- The name of a function that has no hyphens. -/
structure PlainFunction extends FunctionName where
  notHyphenated : name.parts = []

theorem scans_plainFunction {prev : Option TokenKind} {gap rest : List Char} (f : PlainFunction)
    (h : Boundary rest) : Scans prev (f.toFunctionName.lexeme gap) rest :=
  scans_name f.name f.notNumber (fun hp => absurd f.notHyphenated hp) h.stops_continuesPath

/-- A keyword as a name. -/
def Keyword.name (k : Keyword) : PlainName where
  head :=
    { chars := k.text.toList
      ne_nil := by cases k <;> decide
      isWord_of_mem := forall_mem_of_all (by cases k <;> decide +kernel) }
  parts := []

/-- A keyword with a gap in front. -/
def Keyword.lexeme (gap : List Char) (k : Keyword) : Lexeme :=
  k.name.lexeme gap

theorem text_keyword (k : Keyword) : k.name.text = k.text.toList :=
  List.append_nil _

theorem scans_keyword {prev : Option TokenKind} {gap rest : List Char} (k : Keyword)
    (h : Boundary rest) : Scans prev (k.lexeme gap) rest := by
  refine scans_name k.name ?_ (fun hp => absurd rfl hp) h.stops_continuesPath
  cases k <;> decide +kernel

theorem keyword?_keyword (k : Keyword) (gap : List Char) (offset : Nat) :
    ((k.lexeme gap).token offset).keyword? = some k := by
  show Keyword.ofWord? k.name.text = some k
  cases k <;> decide +kernel

/-- A value is expected after a keyword. -/
theorem valueExpected_keyword {gap : List Char} (k : Keyword) :
    valueExpected (before (some (k.lexeme gap).kind)) = true := by
  have hkeyword : Token.keyword? ⟨(k.lexeme gap).kind, [], 0, false⟩ = some k :=
    keyword?_keyword k gap 0
  show Token.expectsValue ⟨(k.lexeme gap).kind, [], 0, false⟩ = true
  rw [Token.expectsValue, hkeyword]
  exact Bool.or_true _

/-! ## Literals -/

/-- What a literal is read as. -/
def Spelling.kind : Spelling → TokenKind
  | .string units => .string (units.map StringUnit.char)
  | .number _ => .number
  | .word w => .path [⟨w.chars, [], false⟩]
  | .binary payload _ _ => .binary payload

/-- A literal with a gap in front. -/
def Spelling.lexeme (gap : List Char) (l : Spelling) : Lexeme :=
  ⟨gap, l.kind, l.text⟩

theorem exists_cons_of_unsigned (n : Numeral) :
    ∃ c cs, n.unsigned = c :: cs ∧ isDigit c = true := by
  have hdigit := n.whole.isDigit_of_mem
  unfold Numeral.unsigned
  cases hchars : n.whole.chars with
  | nil => exact absurd hchars n.whole.ne_nil
  | cons c cs =>
    rw [hchars, List.forall_mem_cons] at hdigit
    split
    · exact ⟨c, cs, rfl, hdigit.1⟩
    · exact ⟨c, _, rfl, hdigit.1⟩

/-- A number without a sign is read wherever it stands. -/
theorem scanNumberAfter_unsigned (prev : Option Token) (n : Numeral) {rest : List Char}
    (hw : Stops isWord rest) (hp : Stops (· == '.') rest) :
    scanNumberAfter prev (n.unsigned ++ rest) = some rest := by
  have hscan := scanNumber_unsigned n hw hp
  obtain ⟨c, cs, hcons, hc⟩ := exists_cons_of_unsigned n
  have hminus : c ≠ '-' := by
    rintro rfl
    exact absurd hc (by decide)
  rw [hcons] at hscan ⊢
  rw [scanNumberAfter, List.cons_append, scanSignedNumber_of_ne hminus, ite_self]
  exact hscan

/-- A number is read with its sign where a value is expected. -/
theorem scanNumberAfter_text {prev : Option Token} (n : Numeral) {rest : List Char}
    (hv : valueExpected prev = true) (h : Boundary rest) :
    scanNumberAfter prev (n.text ++ rest) = some rest := by
  obtain ⟨hsegment, hp⟩ := stops_of_continuesPath h.stops_continuesPath
  have hw := (stops_of_continuesSegment hsegment).1
  unfold Numeral.text
  split
  · have hsigned : scanSignedNumber ('-' :: (n.unsigned ++ rest)) = some rest :=
      scanNumber_unsigned n hw hp
    rw [scanNumberAfter, hv, if_pos rfl, List.cons_append, hsigned]
  · exact scanNumberAfter_unsigned prev n hw hp

theorem exists_cons_of_numeral (n : Numeral) :
    ∃ c cs, n.text = c :: cs ∧ isBlank c = false ∧ c ≠ '\x27' := by
  unfold Numeral.text
  split
  · exact ⟨'-', n.unsigned, rfl, by decide, by decide⟩
  · obtain ⟨c, cs, hcons, hc⟩ := exists_cons_of_unsigned n
    refine ⟨c, cs, hcons, isBlank_of_isWord (isWord_of_isDigit hc), ?_⟩
    rintro rfl
    exact absurd hc (by decide)

/-- Angle brackets around a payload are a binary literal, not comparisons. -/
theorem scanToken_binary {prev : Option Token} {payload : List Char} (hne : payload ≠ [])
    (hp : ∀ c ∈ payload, isBinaryChar c = true) (rest : List Char) :
    scanToken prev '<' (payload ++ '>' :: rest) = .ok (.binary payload, rest) := by
  have hnumber : scanNumberAfter prev ('<' :: (payload ++ '>' :: rest)) = none :=
    scanNumberAfter_of_ne (by decide) rfl
  rw [scanToken, if_neg (by decide), hnumber]
  dsimp only
  rw [scanBinary_payload hne hp]

theorem scans_string {prev : Option TokenKind} (gap : List Char) (units : List StringUnit)
    (rest : List Char) : Scans prev ((Spelling.string units).lexeme gap) rest := by
  refine ⟨'\x27', units.flatMap StringUnit.text ++ ['\x27'], rfl, by decide, ?_⟩
  rw [List.append_assoc, List.singleton_append, scanToken, if_pos rfl, scanString_units]
  rfl

theorem scans_binary {prev : Option TokenKind} (gap : List Char) {payload : List Char}
    (hne : payload ≠ []) (hp : ∀ c ∈ payload, isBinaryChar c = true) (rest : List Char) :
    Scans prev ((Spelling.binary payload hne hp).lexeme gap) rest := by
  refine ⟨'<', payload ++ ['>'], rfl, by decide, ?_⟩
  rw [List.append_assoc, List.singleton_append]
  exact scanToken_binary hne hp rest

/-- A literal is one token where a value is expected. -/
theorem scans_spelling {prev : Option TokenKind} {gap rest : List Char} (l : Spelling)
    (hv : valueExpected (before prev) = true) (h : Boundary rest) :
    Scans prev (l.lexeme gap) rest := by
  cases l with
  | string units => exact scans_string gap units rest
  | number n =>
    obtain ⟨c, cs, hcons, hblank, hquote⟩ := exists_cons_of_numeral n
    have hscan := scanNumberAfter_text n hv h
    rw [hcons, List.cons_append] at hscan
    refine ⟨c, cs, hcons, hblank, ?_⟩
    rw [scanToken, if_neg hquote, hscan]
    rfl
  | word w =>
    have hname : Scans prev (PlainName.lexeme gap ⟨w.word, []⟩) rest :=
      scans_name ⟨w.word, []⟩ w.all_isDigit (fun hp => absurd rfl hp) h.stops_continuesPath
    have htext : PlainName.text ⟨w.word, []⟩ = w.chars := List.append_nil w.chars
    rw [PlainName.lexeme, htext] at hname
    exact hname
  | binary payload hne hp => exact scans_binary gap hne hp rest

/-- Whether a literal is the same wherever it stands: it has no sign and is no word. -/
def Spelling.isOperand : Spelling → Bool
  | .string _ | .binary _ _ _ => true
  | .number n => !n.isNegative
  | .word _ => false

/-- A literal that is the same wherever it stands. -/
structure Operand where
  literal : Spelling
  isOperand : literal.isOperand = true

theorem scans_operand {prev : Option TokenKind} {gap rest : List Char} (o : Operand)
    (h : Boundary rest) : Scans prev (o.literal.lexeme gap) rest := by
  obtain ⟨l, isOperand⟩ := o
  cases l with
  | string units => exact scans_string gap units rest
  | number n =>
    obtain ⟨c, cs, hcons, hblank, hquote⟩ := exists_cons_of_numeral n
    have hsign : n.isNegative = false := Bool.not_eq_true' _ ▸ isOperand
    have hunsigned : n.text = n.unsigned := by
      rw [Numeral.text, hsign]
      rfl
    obtain ⟨hsegment, hp⟩ := stops_of_continuesPath h.stops_continuesPath
    have hscan := scanNumberAfter_unsigned (before prev) n
      (stops_of_continuesSegment hsegment).1 hp
    rw [← hunsigned, hcons, List.cons_append] at hscan
    refine ⟨c, cs, hcons, hblank, ?_⟩
    rw [scanToken, if_neg hquote, hscan]
    rfl
  | word w => exact absurd isOperand Bool.false_ne_true
  | binary payload hne hp => exact scans_binary gap hne hp rest

/-! ## Operators, parentheses and commas -/

/-- A comparison. -/
inductive Comparison where
  | eq
  | ne
  | lt
  | le
  | gt
  | ge
  deriving DecidableEq, Inhabited

namespace Comparison

/-- A comparison as text. -/
def text : Comparison → String
  | .eq => "="
  | .ne => "<>"
  | .lt => "<"
  | .le => "<="
  | .gt => ">"
  | .ge => ">="

/-- A comparison with a space in front. -/
def lexeme (op : Comparison) : Lexeme :=
  ⟨[' '], .operator, op.text.toList⟩

/-- Whether a comparison ends in front of a character. -/
def endsBefore (c : Char) : Comparison → Bool
  | .lt => c != '=' && c != '>'
  | .gt => c != '='
  | _ => true

end Comparison

theorem scanNumber_of_stops_isDigit {cs : List Char} (h : Stops isDigit cs) :
    scanNumber cs = none := by
  unfold scanNumber
  rw [takeWhile_of_stops h]

theorem scanNumber_of_not_isDigit {c : Char} (h : isDigit c = false) (cs : List Char) :
    scanNumber (c :: cs) = none :=
  scanNumber_of_stops_isDigit (stops_cons.mpr h)

/-- What starts neither a text, a number nor a binary literal is an operator if it reads as one. -/
theorem scanToken_of_scanOperator {prev : Option Token} {c : Char} {cs rest : List Char}
    (hquote : c ≠ '\x27') (hn : scanNumberAfter prev (c :: cs) = none)
    (hb : scanBinary (c :: cs) = none) (ho : scanOperator (c :: cs) = some rest) :
    scanToken prev c cs = .ok (.operator, rest) := by
  rw [scanToken, if_neg hquote, hn]
  dsimp only
  rw [hb]
  dsimp only
  rw [ho]

/-- A comparison is one token in front of what does not go on with it, if it starts no binary
literal there. -/
theorem scans_comparison_of_endsBefore (prev : Option TokenKind) (op : Comparison)
    {rest : List Char} (h : ∀ c ∈ rest.head?, op.endsBefore c = true)
    (hb : scanBinary (op.text.toList ++ rest) = none) : Scans prev op.lexeme rest := by
  have hscan : ∀ c cs, c ≠ '\x27' → c ≠ '-' → isDigit c = false →
      scanBinary (c :: cs) = none → scanOperator (c :: cs) = some rest →
      scanToken (before prev) c cs = .ok (.operator, rest) :=
    fun c cs hquote hminus hdigit => scanToken_of_scanOperator hquote
      (scanNumberAfter_of_ne hminus (scanNumber_of_not_isDigit hdigit cs))
  cases op with
  | eq => exact ⟨'=', [], rfl, by decide, hscan _ _ (by decide) (by decide) (by decide) rfl rfl⟩
  | ne => exact ⟨'<', ['>'], rfl, by decide, hscan _ _ (by decide) (by decide) (by decide) hb rfl⟩
  | lt =>
    refine ⟨'<', [], rfl, by decide, hscan _ _ (by decide) (by decide) (by decide) hb ?_⟩
    cases rest with
    | nil => rfl
    | cons c cs =>
      have hc : (c != '=' && c != '>') = true := h c rfl
      rw [Bool.and_eq_true, bne_iff_ne, bne_iff_ne] at hc
      rw [scanOperator]
      · rfl
      · exact fun _ _ hcs => hc.2 (List.cons.inj hcs).1
      · exact fun _ _ hcs => hc.1 (List.cons.inj hcs).1
      · exact fun _ hlt => absurd hlt (by decide)
  | le => exact ⟨'<', ['='], rfl, by decide, hscan _ _ (by decide) (by decide) (by decide) hb rfl⟩
  | gt =>
    refine ⟨'>', [], rfl, by decide, hscan _ _ (by decide) (by decide) (by decide) rfl ?_⟩
    cases rest with
    | nil => rfl
    | cons c cs =>
      have hc : (c != '=') = true := h c rfl
      rw [bne_iff_ne] at hc
      rw [scanOperator]
      · rfl
      · exact fun _ hgt => absurd hgt (by decide)
      · exact fun _ hgt => absurd hgt (by decide)
      · exact fun _ _ hcs => hc (List.cons.inj hcs).1
  | ge => exact ⟨'>', ['='], rfl, by decide, hscan _ _ (by decide) (by decide) (by decide) rfl rfl⟩

/-- A comparison is one token in front of a space. -/
theorem scans_comparison (prev : Option TokenKind) (op : Comparison) (rest : List Char) :
    Scans prev op.lexeme (' ' :: rest) := by
  refine scans_comparison_of_endsBefore prev op (fun c hc => ?_) ?_
  · rw [← Option.some.inj (show some ' ' = some c from hc)]
    cases op <;> rfl
  · cases op <;> rfl

/-- An arithmetic operator. -/
inductive Arithmetic where
  | plus
  | minus
  deriving DecidableEq, Inhabited

namespace Arithmetic

/-- An arithmetic operator as text. -/
def text : Arithmetic → String
  | .plus => "+"
  | .minus => "-"

/-- An arithmetic operator with a space in front. -/
def lexeme (op : Arithmetic) : Lexeme :=
  ⟨[' '], .operator, op.text.toList⟩

/-- Whether an arithmetic operator is no sign of a number in front of a character. -/
def endsBefore (c : Char) : Arithmetic → Bool
  | .minus => !isDigit c
  | .plus => true

end Arithmetic

/-- An arithmetic operator is one token where it is no sign of a number. -/
theorem scans_arithmetic_of_endsBefore (prev : Option TokenKind) (op : Arithmetic)
    {rest : List Char} (h : ∀ c ∈ rest.head?, op.endsBefore c = true) :
    Scans prev op.lexeme rest := by
  cases op with
  | plus =>
    exact ⟨'+', [], rfl, by decide, scanToken_of_scanOperator (by decide)
      (scanNumberAfter_of_ne (by decide) (scanNumber_of_not_isDigit (by decide) _)) rfl rfl⟩
  | minus =>
    have hstops : Stops isDigit rest := fun c hc => Bool.not_eq_true' _ ▸ h c hc
    have hsigned : scanSignedNumber ('-' :: rest) = none := scanNumber_of_stops_isDigit hstops
    have hnumber : scanNumberAfter (before prev) ('-' :: rest) = none := by
      rw [scanNumberAfter, hsigned, ite_self]
      exact scanNumber_of_not_isDigit (by decide) _
    exact ⟨'-', [], rfl, by decide, scanToken_of_scanOperator (by decide) hnumber rfl rfl⟩

/-- An arithmetic operator is one token in front of a space, also where a sign could stand. -/
theorem scans_arithmetic (prev : Option TokenKind) (op : Arithmetic) (rest : List Char) :
    Scans prev op.lexeme (' ' :: rest) := by
  refine scans_arithmetic_of_endsBefore prev op fun c hc => ?_
  rw [← Option.some.inj (show some ' ' = some c from hc)]
  cases op <;> rfl

/-- An opening parenthesis with a gap in front. -/
def openParen (gap : List Char) : Lexeme :=
  ⟨gap, .openParen, ['(']⟩

/-- A closing parenthesis. -/
def closeParen : Lexeme :=
  ⟨[], .closeParen, [')']⟩

/-- A comma. -/
def comma : Lexeme :=
  ⟨[], .comma, [',']⟩

/-- A character that starts no longer token is a token of its own. -/
theorem scans_single {c : Char} {kind : TokenKind} (prev : Option TokenKind) (gap rest : List Char)
    (hc : isBlank c = false ∧ c ≠ '\x27' ∧ c ≠ '-' ∧ isDigit c = false)
    (hbinary : scanBinary (c :: rest) = none) (hoperator : scanOperator (c :: rest) = none)
    (hsign : scanWordOrSign (before prev) c rest = .ok (kind, rest)) :
    Scans prev ⟨gap, kind, [c]⟩ rest := by
  obtain ⟨hblank, hquote, hminus, hdigit⟩ := hc
  refine ⟨c, [], rfl, hblank, ?_⟩
  rw [List.nil_append, scanToken, if_neg hquote,
    scanNumberAfter_of_ne hminus (scanNumber_of_not_isDigit hdigit _)]
  dsimp only
  rw [hbinary]
  dsimp only
  rw [hoperator]
  exact hsign

theorem scans_openParen (prev : Option TokenKind) (gap rest : List Char) :
    Scans prev (openParen gap) rest :=
  scans_single prev gap rest (by decide) rfl rfl rfl

theorem scans_closeParen (prev : Option TokenKind) (rest : List Char) :
    Scans prev closeParen rest :=
  scans_single prev [] rest (by decide) rfl rfl rfl

theorem scans_comma (prev : Option TokenKind) (rest : List Char) : Scans prev comma rest :=
  scans_single prev [] rest (by decide) rfl rfl rfl

/-! ## Parentheses around lexemes -/

/-- A literal opens and closes no parenthesis. -/
theorem depthStep_spelling (l : Spelling) (depth : Nat) : depthStep depth l.kind = some depth := by
  cases l <;> rfl

end ItemStore.Expression
