import Mathlib.Data.List.Forall2
import ItemStore.Proofs.Expression.Payloads
import ItemStore.Proofs.Expression.Turns

/-
  Nothing of a source is lost in its tokens. `Lossless` says where they stand: each at its offset,
  one behind the other, with nothing but white space around them, and `spaced` if white space stands
  directly before. `TokenKind.Spells` says how a text spells what the token keeps of it: the
  segments of a path, the payload of a literal.

  Both are read off the lexemes that the source is printed from (`tokenize_eq_ok_iff`). A token
  never ends with white space (`Reads.endsOutside`), so white space directly before a token is
  always its own gap.
-/

namespace ItemStore.Expression

open Text

/-! ## What a text spells -/

/-- What is meant by a text between single quotes: a backslash takes the next character as it is.
None if the text cannot stand there, for a quote in it or a backslash at its end. -/
def unescape : List Char → Option (List Char)
  | [] => some []
  | '\\' :: c :: cs => (unescape cs).map (c :: ·)
  | c :: cs => if c = '\x27' ∨ c = '\\' then none else (unescape cs).map (c :: ·)

theorem unescape_units (units : List StringUnit) :
    unescape (units.flatMap StringUnit.text) = some (units.map StringUnit.char) := by
  induction units with
  | nil => rfl
  | cons u units ih =>
    rw [List.flatMap_cons, List.map_cons]
    cases u with
    | plain c isPlain =>
      rw [Bool.and_eq_true, bne_iff_ne, bne_iff_ne] at isPlain
      show unescape (c :: units.flatMap StringUnit.text) = _
      rw [unescape, if_neg (not_or.mpr isPlain), ih]
      · rfl
      · exact fun _ _ h => absurd h isPlain.2
    | escaped c =>
      show unescape ('\\' :: c :: units.flatMap StringUnit.text) = _
      rw [unescape, ih]
      rfl

/-- How a segment is written: its name as it is, or between two backticks or two double quotes,
with its indexes behind it. -/
inductive Segment.Spells : Segment → List Char → Prop where
  | plain (name suffix : List Char) : Segment.Spells ⟨name, suffix, false⟩ (name ++ suffix)
  | quoted (name suffix : List Char) {mark : Char} (isMark : isNameQuote mark = true)
      (fresh : mark ∉ name) :
    Segment.Spells ⟨name, suffix, true⟩ (mark :: (name ++ [mark]) ++ suffix)

theorem Step.spells (s : Step) : s.segment.Spells s.text := by
  obtain ⟨name, indexes⟩ := s
  cases name with
  | plain n => exact .plain n.text _
  | quoted mark body isMark fresh => exact .quoted body _ isMark fresh

/-- Steps behind points are joined with points. -/
theorem intercalate_steps (s : Step) (ss : List Step) :
    ['.'].intercalate ((s :: ss).map Step.text) = s.text ++ Step.pointed ss := by
  induction ss generalizing s with
  | nil => simp [Step.pointed]
  | cons t ss ih =>
    rw [List.map_cons, List.map_cons, List.intercalate_cons_cons, ← List.map_cons, ih]
    simp [Step.pointed]

/-- How a text spells what a token keeps of it. -/
def TokenKind.Spells (text : List Char) : TokenKind → Prop
  | .path segments => segments ≠ [] ∧ ∃ parts, List.Forall₂ Segment.Spells segments parts ∧
      text = ['.'].intercalate parts
  | .binary payload => text = '<' :: (payload ++ ['>'])
  | .string payload => ∃ body, text = '\x27' :: (body ++ ['\x27']) ∧ unescape body = some payload
  | _ => True

theorem TokenKind.Reads.spells {text : List Char} {kind : TokenKind} (h : kind.Reads text) :
    kind.Spells text := by
  cases kind with
  | string payload =>
    obtain ⟨units, rfl, htext⟩ := h
    exact ⟨units.flatMap StringUnit.text, htext, unescape_units units⟩
  | binary payload => exact h.2.2
  | path segments =>
    obtain ⟨s, ss, rfl, rfl⟩ := h
    refine ⟨List.cons_ne_nil _ _, (s :: ss).map Step.text, ?_, (intercalate_steps s ss).symm⟩
    rw [← List.map_cons, List.forall₂_map_left_iff, List.forall₂_map_right_iff,
      List.forall₂_same]
    exact fun t _ => t.spells
  | _ => trivial

/-! ## The ends of a text -/

theorem endsOutside_digits (d : Digits) : EndsOutside isBlank d.chars :=
  endsOutside_of_forall fun c hc => isBlank_of_isWord (isWord_of_isDigit (d.isDigit_of_mem c hc))

theorem endsOutside_numeral (n : Numeral) : EndsOutside isBlank n.text := by
  have hunsigned : EndsOutside isBlank n.unsigned := by
    unfold Numeral.unsigned
    split
    · exact endsOutside_digits n.whole
    · next f hf =>
      refine (endsOutside_digits n.whole).append ?_
      exact (endsOutside_concat (show isBlank '.' = false by decide) []).append
        (endsOutside_digits f)
  unfold Numeral.text
  split
  · exact (endsOutside_concat (show isBlank '-' = false by decide) []).append hunsigned
  · exact hunsigned

/-- A token that does not start with white space does not end with it. -/
theorem TokenKind.Reads.endsOutside {text : List Char} {kind : TokenKind} (h : kind.Reads text)
    (hs : Stops isBlank text) : EndsOutside isBlank text := by
  cases kind with
  | string payload =>
    obtain ⟨units, -, rfl⟩ := h
    exact endsOutside_concat (by decide) ('\x27' :: units.flatMap StringUnit.text)
  | binary payload =>
    obtain ⟨-, -, rfl⟩ := h
    exact endsOutside_concat (by decide) ('<' :: payload)
  | number =>
    obtain ⟨n, rfl⟩ := h
    exact endsOutside_numeral n
  | operator => exact (show ∀ op ∈ operators, EndsOutside isBlank op by decide) text h
  | openParen =>
    cases h
    decide
  | closeParen =>
    cases h
    decide
  | comma =>
    cases h
    decide
  | placeholder =>
    obtain ⟨mark, w, -, rfl⟩ := h
    exact (endsOutside_concat (stops_cons.mp hs) []).append (Tagged.endsOutside_word w)
  | path segments =>
    obtain ⟨s, ss, -, rfl⟩ := h
    exact Tagged.endsOutside_steps s ss
  | other =>
    obtain ⟨c, rfl⟩ := h
    exact endsOutside_concat (stops_cons.mp hs) []

/-! ## Tokens in their places -/

namespace Token

/-- The token takes the character at this place. -/
def Takes (t : Token) (i : Nat) : Prop :=
  t.offset ≤ i ∧ i < t.offset + t.text.length

/-- A token stands in a source: its text is what the source has at its offset, and it is spaced if
the source has white space directly before. -/
structure StandsIn (source : List Char) (t : Token) : Prop where
  text_ne_nil : t.text ≠ []
  text_eq : (source.drop t.offset).take t.text.length = t.text
  spaced_iff : t.spaced = true ↔ ∃ c, (source.take t.offset).getLast? = some c ∧ isBlank c = true

end Token

/-- Nothing of a source is lost in its tokens. -/
structure Lossless (source : List Char) (tokens : List Token) : Prop where
  stands : ∀ t ∈ tokens, t.StandsIn source
  apart : tokens.Pairwise fun t u => t.offset < u.offset ∧ t.offset + t.text.length ≤ u.offset
  blank : ∀ i c, source[i]? = some c → (∀ t ∈ tokens, ¬t.Takes i) → isBlank c = true
  spells : ∀ t ∈ tokens, t.kind.Spells t.text

namespace Lexeme

theorem Scans.ne_nil {prev : Option TokenKind} {x : Lexeme} {rest : List Char}
    (h : Scans prev x rest) : x.text ≠ [] := by
  obtain ⟨c, cs, htext, -, -⟩ := h
  rw [htext]
  exact List.cons_ne_nil c cs

theorem Scans.endsOutside {prev : Option TokenKind} {x : Lexeme} {rest : List Char}
    (h : Scans prev x rest) : EndsOutside isBlank x.text := by
  refine h.reads.endsOutside ?_
  obtain ⟨c, cs, htext, hblank, -⟩ := h
  rw [htext, stops_cons]
  exact hblank

/-- A lexeme stands in the source behind its gap, if what is before the gap ends outside white
space. -/
theorem standsIn_token {prev : Option TokenKind} {x : Lexeme} {rest front : List Char}
    (hgap : ∀ c ∈ x.gap, isBlank c = true) (hscans : Scans prev x rest)
    (hfront : EndsOutside isBlank front) :
    (x.token (front.length + x.gap.length)).StandsIn (front ++ x.gap ++ x.text ++ rest) where
  text_ne_nil := hscans.ne_nil
  text_eq := by
    show ((front ++ x.gap ++ x.text ++ rest).drop (front.length + x.gap.length)).take
      x.text.length = x.text
    rw [← List.length_append, List.append_assoc, List.drop_left, List.take_left]
  spaced_iff := by
    show (!x.gap.isEmpty) = true ↔
      ∃ c, ((front ++ x.gap ++ x.text ++ rest).take (front.length + x.gap.length)).getLast? =
        some c ∧ isBlank c = true
    rw [← List.length_append, List.append_assoc, List.take_left]
    cases hlast : x.gap.getLast? with
    | none =>
      rw [List.getLast?_eq_none_iff.mp hlast, List.append_nil]
      refine ⟨nofun, ?_⟩
      rintro ⟨c, hc, hblank⟩
      rw [hfront c hc] at hblank
      cases hblank
    | some c =>
      have hmem := List.mem_of_getLast? hlast
      have hne := List.ne_nil_of_mem hmem
      rw [List.getLast?_append_of_ne_nil _ hne, hlast]
      refine ⟨fun _ => ⟨c, rfl, hgap c hmem⟩, fun _ => ?_⟩
      rw [Bool.not_eq_true', List.isEmpty_eq_false_iff]
      exact hne

/-- Printed lexemes stand in the source. The induction carries what is printed before them, which
ends outside white space. -/
theorem standsIn_place {xs : List Lexeme} {prev : Option TokenKind} {tail : List Char}
    (front : List Char) (hl : Legible prev tail xs) (hfront : EndsOutside isBlank front) :
    ∀ t ∈ place front.length xs, t.StandsIn (front ++ (print xs ++ tail)) := by
  induction xs generalizing prev front with
  | nil => exact nofun
  | cons x xs ih =>
    obtain ⟨hgap, hscans, hrest⟩ := hl
    have hsource : front ++ (print (x :: xs) ++ tail) =
        front ++ x.gap ++ x.text ++ (print xs ++ tail) := by
      simp only [print, List.append_assoc]
    have hlength : front.length + x.gap.length + x.text.length =
        (front ++ x.gap ++ x.text).length := by
      rw [List.length_append, List.length_append]
    have hends : EndsOutside isBlank (front ++ x.gap ++ x.text) := by
      rw [EndsOutside, List.getLast?_append_of_ne_nil _ hscans.ne_nil]
      exact hscans.endsOutside
    rw [hsource, place, List.forall_mem_cons, hlength]
    exact ⟨standsIn_token hgap hscans hfront, ih _ hrest hends⟩

theorem le_offset_of_mem_place {xs : List Lexeme} {start : Nat} {t : Token}
    (h : t ∈ place start xs) : start ≤ t.offset := by
  induction xs generalizing start with
  | nil => exact absurd h List.not_mem_nil
  | cons x xs ih =>
    rcases List.mem_cons.mp h with rfl | h
    · exact Nat.le_add_right _ _
    · have := ih h
      omega

theorem pairwise_place (xs : List Lexeme) (start : Nat) :
    (place start xs).Pairwise fun t u => t.offset + t.text.length ≤ u.offset := by
  induction xs generalizing start with
  | nil => exact .nil
  | cons x xs ih => exact .cons (fun u hu => le_offset_of_mem_place hu) (ih _)

/-- A character that no token takes is white space: it is in a gap or behind all lexemes. -/
theorem isBlank_of_not_takes {xs : List Lexeme} {prev : Option TokenKind} {tail : List Char}
    (hl : Legible prev tail xs) (htail : ∀ c ∈ tail, isBlank c = true) {start i : Nat} {c : Char}
    (hc : (print xs ++ tail)[i]? = some c)
    (hnone : ∀ t ∈ place start xs, ¬t.Takes (start + i)) : isBlank c = true := by
  induction xs generalizing prev start i with
  | nil => exact htail c (List.mem_of_getElem? hc)
  | cons x xs ih =>
    obtain ⟨hgap, -, hrest⟩ := hl
    rw [place, List.forall_mem_cons] at hnone
    rw [print, List.append_assoc, List.append_assoc] at hc
    by_cases hingap : i < x.gap.length
    · rw [List.getElem?_append_left hingap] at hc
      exact hgap c (List.mem_of_getElem? hc)
    · have hpast : x.gap.length + x.text.length ≤ i := by
        refine Nat.le_of_not_lt fun hlt => hnone.1 ⟨?_, ?_⟩
        · show start + x.gap.length ≤ start + i
          omega
        · show start + i < start + x.gap.length + x.text.length
          omega
      rw [List.getElem?_append_right (by omega), List.getElem?_append_right (by omega)] at hc
      have hplace : start + x.gap.length + x.text.length + (i - x.gap.length - x.text.length) =
          start + i := by omega
      rw [← hplace] at hnone
      exact ih hrest hc hnone.2

/-- Nothing is lost of what legible lexemes print. -/
theorem lossless_place {xs : List Lexeme} {tail : List Char} (hl : Legible none tail xs)
    (htail : ∀ c ∈ tail, isBlank c = true) : Lossless (print xs ++ tail) (place 0 xs) where
  stands := standsIn_place [] hl nofun
  apart := by
    refine (pairwise_place xs 0).imp_of_mem fun ht _ h => ⟨?_, h⟩
    have hne := (standsIn_place [] hl nofun _ ht).text_ne_nil
    have := List.length_pos_iff.mpr hne
    omega
  blank := fun i c hc hnone => isBlank_of_not_takes hl htail hc fun t ht => by
    rw [Nat.zero_add]
    exact hnone t ht
  spells := fun _ ht => (reads_of_mem_place hl ht).spells

end Lexeme

/-- The loop over any source ends: each turn takes at least one character, so after as many turns as
there are characters nothing is left, and the tokens or the fault met are what `tokenize` gives.
Nothing of the source is lost in the tokens. -/
theorem tokenize_lossless (source : List Char) :
    ((∀ r r' : Reader, r.rest ≠ [] → r.turn = .ok r' →
        ∃ taken, taken ≠ [] ∧ r.rest = taken ++ r'.rest ∧ r'.offset = r.offset + taken.length) ∧
      (∀ r, Reader.turns source.length (.start source) = .ok r → r.rest = []) ∧
      tokenize source = ((Reader.turns source.length (.start source)).bind Reader.found).mapError
        fun e => ⟨e.1, source, e.2⟩) ∧
    ∀ tokens, tokenize source = .ok tokens → Lossless source tokens := by
  have hlength : (Reader.start source).rest.length ≤ source.length := Nat.le_refl _
  refine ⟨⟨fun _ _ => Reader.exists_taken_of_turn, fun r => Reader.turns_rest hlength,
    Reader.tokenize_eq_turns source⟩, ?_⟩
  intro tokens h
  obtain ⟨xs, tail, htail, hl, -, rfl, rfl⟩ := Lexeme.tokenize_eq_ok_iff.mp h
  exact Lexeme.lossless_place hl htail

/-- A source with a quoted name, an index, a text with a quote in it and a binary text. -/
theorem tokenize_lossless_literals :
    let source := "\x60a b\x60.c[0] IN ('it\\'s', <AQ==>)".toList
    (∃ r taken, (Reader.start source).turn = .ok r ∧ taken ≠ [] ∧ source = taken ++ r.rest ∧
      r.offset = 0 + taken.length) ∧
    (∃ r, Reader.turns source.length (.start source) = .ok r ∧ r.rest = []) ∧
    ∃ tokens, tokenize source = .ok tokens ∧ tokens.length = 7 ∧ Lossless source tokens := by
  intro source
  obtain ⟨⟨hturn, hturns, -⟩, hlossless⟩ := tokenize_lossless source
  refine ⟨?_, ?_, ?_⟩
  · obtain ⟨r, hr, -⟩ := exists_ok_of_any (r := (Reader.start source).turn) (p := fun _ => True)
      (by decide +kernel)
    obtain ⟨taken, htaken⟩ := hturn _ r (by decide) hr
    exact ⟨r, taken, hr, htaken⟩
  · obtain ⟨r, hr, -⟩ := exists_ok_of_any (r := Reader.turns source.length (.start source))
      (p := fun _ => True) (by decide +kernel)
    exact ⟨r, hr, hturns r hr⟩
  · obtain ⟨tokens, htokens, hlength⟩ := exists_ok_of_any (r := tokenize source)
      (p := fun tokens => tokens.length = 7) (by decide +kernel)
    exact ⟨tokens, htokens, hlength, hlossless tokens htokens⟩

end ItemStore.Expression
