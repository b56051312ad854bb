import ItemStore.Proofs.Expression.Lexemes
import ItemStore.Proofs.Expression.Scanners

/-
  The tokens of a source are its lexemes in their places, and the other way round
  (`tokenize_eq_ok_iff`): a source has tokens exactly if it is printed from legible lexemes that
  match their parentheses, with white space behind them. Nothing of the source is lost but white
  space, and every token is read from its own text (`Scans.reads`).

  `tokensFrom_sound` is the new direction. The white space met so far is the gap of the lexeme to
  come, so the induction carries it along.
-/

namespace ItemStore.Expression.Lexeme

open Text

/-- A lexeme is read from its text. -/
theorem Scans.reads {prev : Option TokenKind} {x : Lexeme} {rest : List Char}
    (h : Scans prev x rest) : x.kind.Reads x.text := by
  obtain ⟨c, cs, htext, -, hscan⟩ := h
  obtain ⟨text, hreads, hcons⟩ := scanToken_reads hscan
  have hsame : c :: cs = text := by
    rw [← List.cons_append] at hcons
    exact List.append_cancel_right hcons
  rw [htext, hsame]
  exact hreads

/-- So is every token that is printed. -/
theorem reads_of_mem_place {prev : Option TokenKind} {tail : List Char} {xs : List Lexeme}
    (hl : Legible prev tail xs) {offset : Nat} {t : Token} (ht : t ∈ place offset xs) :
    t.kind.Reads t.text := by
  induction xs generalizing prev offset with
  | nil => cases ht
  | cons x xs ih =>
    obtain ⟨-, hscans, hrest⟩ := hl
    rcases List.mem_cons.mp ht with rfl | ht
    · exact hscans.reads
    · exact ih hrest ht

/-- A token is scanned from its first character on, and what is counted and taken for it is its
text. -/
theorem exists_text_of_scanToken {prev : Option Token} {c : Char} {cs rest : List Char}
    {kind : TokenKind} (h : scanToken prev c cs = .ok (kind, rest)) :
    ∃ ds, cs = ds ++ rest ∧ (c :: cs).length - rest.length = (c :: ds).length ∧
      (c :: cs).take (c :: ds).length = c :: ds := by
  obtain ⟨text, -, hcons⟩ := scanToken_reads h
  cases text with
  | nil =>
    have hlt := scanToken_length h
    rw [hcons] at hlt
    exact absurd hlt (Nat.lt_irrefl _)
  | cons d ds =>
    obtain ⟨rfl, hcs⟩ := List.cons.inj hcons
    refine ⟨ds, hcs, ?_, ?_⟩
    · rw [hcons, List.length_append, Nat.add_sub_cancel]
    · rw [hcons, List.take_left]

/-- The rest of a source that has tokens is printed from lexemes; `gap` is the white space in
front. -/
theorem tokensFrom_sound {prev : Option Token} {opened : List Nat} {spaced : Bool}
    {offset : Nat} {cs : List Char} {tokens : List Token}
    (h : tokensFrom prev opened spaced offset cs = .ok tokens) (gap : List Char) (start : Nat)
    (hgap : ∀ c ∈ gap, isBlank c = true) (hspaced : spaced = !gap.isEmpty)
    (hoffset : offset = start + gap.length) :
    ∃ xs tail, (∀ c ∈ tail, isBlank c = true) ∧ Legible (prev.map Token.kind) tail xs ∧
      depthAfter opened.length xs = some 0 ∧ gap ++ cs = print xs ++ tail ∧
      tokens = place start xs := by
  fun_induction tokensFrom prev opened spaced offset cs generalizing tokens gap start with
  | case1 prev spaced offset =>
    cases h
    exact ⟨[], gap, hgap, trivial, rfl, List.append_nil gap, rfl⟩
  | case2 => cases h
  | case3 prev opened spaced offset c cs hblank ih =>
    have hgap' : ∀ d ∈ gap ++ [c], isBlank d = true := by
      intro d hd
      rcases List.mem_append.mp hd with hd | hd
      · exact hgap d hd
      · rw [List.mem_singleton.mp hd]
        exact hblank
    have hsplit : gap ++ c :: cs = gap ++ [c] ++ cs := by simp
    rw [hsplit]
    refine ih h (gap ++ [c]) start hgap' ?_ ?_
    · cases gap <;> rfl
    · rw [hoffset, List.length_append, List.length_singleton, Nat.add_assoc]
  | case4 => cases h
  | case5 => cases h
  | case6 => cases h
  | case7 prev opened spaced offset c cs hblank kind rest hscan hlt size opened' hopened token
      tokens' htokens =>
    rename_i ih
    obtain ⟨ds, hcs, hsize, htake⟩ := exists_text_of_scanToken hscan
    have hsize : size = (c :: ds).length := hsize
    have htext : token.text = c :: ds := by
      show (c :: cs).take size = c :: ds
      rw [hsize, htake]
    have hstep := depthStep_length opened kind offset
    rw [hopened] at hstep
    obtain ⟨xs, tail, htail, hlegible, hdepth, hrest, hplace⟩ :=
      ih htokens [] (offset + size) nofun rfl rfl
    rw [List.nil_append] at hrest
    refine ⟨⟨gap, kind, c :: ds⟩ :: xs, tail, htail, ⟨hgap, ⟨c, ds, rfl, ?_, ?_⟩, hlegible⟩,
      depthAfter_cons hstep hdepth, ?_, ?_⟩
    · rw [← Bool.not_eq_true]
      exact hblank
    · rw [← scanToken_eq_before, ← hrest, ← hcs]
      exact hscan
    · rw [print, List.append_assoc, List.append_assoc, ← hrest, hcs, List.cons_append]
    · rw [← Except.ok.inj h, place, ← hoffset, ← hsize, ← hplace, Lexeme.token, ← hspaced, ← htext]

/-- A source has tokens exactly if it is printed from legible lexemes that match their parentheses,
with white space behind them; the tokens are the lexemes in their places. -/
theorem tokenize_eq_ok_iff {source : List Char} {tokens : List Token} :
    tokenize source = .ok tokens ↔
      ∃ xs tail, (∀ c ∈ tail, isBlank c = true) ∧ Legible none tail xs ∧
        depthAfter 0 xs = some 0 ∧ source = print xs ++ tail ∧ tokens = place 0 xs := by
  constructor
  · intro h
    unfold tokenize at h
    split at h
    · next tokens' htokens =>
      cases h
      exact tokensFrom_sound htokens [] 0 nofun rfl rfl
    · cases h
  · rintro ⟨xs, tail, htail, hlegible, hdepth, rfl, rfl⟩
    exact tokenize_print htail hlegible hdepth

end ItemStore.Expression.Lexeme
