import ItemStore.Proofs.Expression.Tokenization

/-
  The tokens of a source as a loop finds them. A `Reader` is where the loop stands; one `turn`
  passes over all the white space at hand, or reads a token and puts it behind those already found.

  `exists_taken_of_turn`: a turn takes at least one character of what is left. So after as many
  turns as the source has characters nothing is left (`turns_rest`), and what the reader has then
  is what `tokenize` gives, a fault with its place included (`tokenize_eq_turns`).
-/

namespace ItemStore.Expression

open Text

/-- Where the loop over a source stands: the tokens found, the offsets of the parentheses open,
innermost first, whether white space stands directly before, and the rest with its offset. -/
structure Reader where
  tokens : List Token
  opened : List Nat
  spaced : Bool
  offset : Nat
  rest : List Char

namespace Reader

/-- The reader before the first turn. -/
def start (source : List Char) : Reader :=
  ⟨[], [], false, 0, source⟩

/-- One turn of the loop. When nothing is left the reader stays where it is. -/
def turn (r : Reader) : Except (Fault × Nat) Reader :=
  match r.rest with
  | [] => .ok r
  | c :: cs =>
    if isBlank c then
      .ok { r with
        spaced := true
        offset := r.offset + ((c :: cs).takeWhile isBlank).length
        rest := (c :: cs).dropWhile isBlank }
    else
      match scanToken r.tokens.getLast? c cs with
      | .error (fault, rest) => .error (fault, r.offset + ((c :: cs).length - rest.length))
      | .ok (kind, rest) =>
        let size := (c :: cs).length - rest.length
        match matchParens kind r.offset r.opened with
        | none => .error (.unmatchedClose, r.offset)
        | some opened =>
          .ok ⟨r.tokens ++ [⟨kind, (c :: cs).take size, r.offset, r.spaced⟩], opened, false,
            r.offset + size, rest⟩

/-- That many turns, or the first fault. -/
def turns : Nat → Reader → Except (Fault × Nat) Reader
  | 0, r => .ok r
  | n + 1, r => r.turn.bind (turns n)

/-- What is found in the end: the tokens, unless a parenthesis is still open. -/
def found (r : Reader) : Except (Fault × Nat) (List Token) :=
  match r.opened with
  | [] => .ok r.tokens
  | paren :: _ => .error (.unmatchedOpen, paren)

/-! ## What a turn takes -/

/-- A turn takes at least one character of what is left, and counts what it takes. -/
theorem exists_taken_of_turn {r r' : Reader} (hrest : r.rest ≠ []) (h : r.turn = .ok r') :
    ∃ taken, taken ≠ [] ∧ r.rest = taken ++ r'.rest ∧ r'.offset = r.offset + taken.length := by
  unfold turn at h
  split at h
  · next hnil => exact absurd hnil hrest
  next c cs hcons =>
  split at h
  · next hblank =>
    cases h
    refine ⟨(c :: cs).takeWhile isBlank, ?_, ?_, rfl⟩
    · rw [List.takeWhile_cons, hblank]
      exact List.cons_ne_nil _ _
    · rw [hcons, List.takeWhile_append_dropWhile]
  split at h
  · cases h
  next kind rest hscan =>
  dsimp only at h
  split at h
  · cases h
  cases h
  obtain ⟨ds, hcs, hsize, -⟩ := Lexeme.exists_text_of_scanToken hscan
  exact ⟨c :: ds, List.cons_ne_nil _ _, by rw [hcons, hcs, List.cons_append], by rw [hsize]⟩

theorem turn_length {r r' : Reader} (hrest : r.rest ≠ []) (h : r.turn = .ok r') :
    r'.rest.length < r.rest.length := by
  obtain ⟨taken, hne, htaken, -⟩ := exists_taken_of_turn hrest h
  have := List.length_pos_iff.mpr hne
  rw [htaken, List.length_append]
  omega

theorem turn_of_rest_nil {r : Reader} (h : r.rest = []) : r.turn = .ok r := by
  rw [turn, h]

theorem turns_of_rest_nil {r : Reader} (h : r.rest = []) (n : Nat) : turns n r = .ok r := by
  induction n with
  | zero => rfl
  | succ n ih => rw [turns, turn_of_rest_nil h, Except.bind, ih]

/-- Enough turns leave nothing. -/
theorem turns_rest {n : Nat} {r r' : Reader} (hn : r.rest.length ≤ n) (h : turns n r = .ok r') :
    r'.rest = [] := by
  induction n generalizing r with
  | zero =>
    cases h
    exact List.eq_nil_of_length_eq_zero (Nat.le_zero.mp hn)
  | succ n ih =>
    rw [turns] at h
    by_cases hrest : r.rest = []
    · rw [turn_of_rest_nil hrest, Except.bind, turns_of_rest_nil hrest] at h
      cases h
      exact hrest
    · cases hturn : r.turn with
      | error e =>
        rw [hturn] at h
        cases h
      | ok r₁ =>
        rw [hturn, Except.bind] at h
        have := turn_length hrest hturn
        exact ih (by omega) h

/-! ## The loop and its tokens -/

/-- The tokens that the recursion gives from here on, behind those already found. -/
def remaining (r : Reader) : Except (Fault × Nat) (List Token) :=
  (tokensFrom r.tokens.getLast? r.opened r.spaced r.offset r.rest).map (r.tokens ++ ·)

theorem remaining_of_rest_nil {r : Reader} (h : r.rest = []) : r.remaining = r.found := by
  obtain ⟨tokens, opened, spaced, offset, rest⟩ := r
  subst h
  cases opened with
  | nil =>
    rw [remaining, tokensFrom]
    exact congrArg Except.ok (List.append_nil tokens)
  | cons paren opened =>
    rw [remaining, tokensFrom]
    rfl

/-- A turn over white space. -/
theorem remaining_skip (tokens : List Token) (opened : List Nat) (spaced : Bool) (offset : Nat)
    {c : Char} (cs : List Char) (hc : isBlank c = true) :
    remaining ⟨tokens, opened, spaced, offset, c :: cs⟩ =
      remaining ⟨tokens, opened, true, offset + ((c :: cs).takeWhile isBlank).length,
        (c :: cs).dropWhile isBlank⟩ := by
  have hgap : ∀ d ∈ (c :: cs).takeWhile isBlank, isBlank d = true :=
    List.all_eq_true.mp List.all_takeWhile
  have hskip := Lexeme.tokensFrom_gap hgap tokens.getLast? opened spaced offset
    ((c :: cs).dropWhile isBlank)
  have hspaced : (spaced || !((c :: cs).takeWhile isBlank).isEmpty) = true := by
    rw [List.takeWhile_cons, hc]
    exact Bool.or_true spaced
  rw [List.takeWhile_append_dropWhile, hspaced] at hskip
  exact congrArg (Except.map (tokens ++ ·)) hskip

/-- A turn that reads a token. -/
theorem remaining_read {tokens : List Token} {opened opened' : List Nat} (spaced : Bool)
    {offset : Nat} {c : Char} {ds rest : List Char} {kind : TokenKind} (hc : isBlank c = false)
    (hscan : scanToken tokens.getLast? c (ds ++ rest) = .ok (kind, rest))
    (hparens : matchParens kind offset opened = some opened') :
    remaining ⟨tokens, opened, spaced, offset, c :: (ds ++ rest)⟩ =
      remaining ⟨tokens ++ [⟨kind, c :: ds, offset, spaced⟩], opened', false,
        offset + (c :: ds).length, rest⟩ := by
  have hcons := Lexeme.tokensFrom_cons _ spaced offset hc hscan hparens
  rw [List.cons_append] at hcons
  simp only [remaining, List.getLast?_concat, hcons]
  cases tokensFrom (some ⟨kind, c :: ds, offset, spaced⟩) opened' false
    (offset + (c :: ds).length) rest with
  | error e => rfl
  | ok found => exact congrArg Except.ok (List.append_cons tokens _ found)

/-- A turn that finds a fault in a token. -/
theorem remaining_stuck (tokens : List Token) (opened : List Nat) (spaced : Bool) (offset : Nat)
    {c : Char} {cs rest : List Char} {fault : Fault} (hc : isBlank c = false)
    (hscan : scanToken tokens.getLast? c cs = .error (fault, rest)) :
    remaining ⟨tokens, opened, spaced, offset, c :: cs⟩ =
      .error (fault, offset + ((c :: cs).length - rest.length)) := by
  rw [remaining, Lexeme.tokensFrom_stuck opened spaced offset hc hscan]
  rfl

/-- A turn that closes a parenthesis where none is open. -/
theorem remaining_unmatched (tokens : List Token) {opened : List Nat} (spaced : Bool)
    {offset : Nat} {c : Char} {cs rest : List Char} {kind : TokenKind} (hc : isBlank c = false)
    (hscan : scanToken tokens.getLast? c cs = .ok (kind, rest))
    (hparens : matchParens kind offset opened = none) :
    remaining ⟨tokens, opened, spaced, offset, c :: cs⟩ = .error (.unmatchedClose, offset) := by
  rw [remaining, Lexeme.tokensFrom_unmatched spaced hc hscan hparens]
  rfl

/-- A turn leaves the same tokens to be found, and stops at the same fault. -/
theorem remaining_eq_turn (r : Reader) : r.remaining = r.turn.bind remaining := by
  obtain ⟨tokens, opened, spaced, offset, rest⟩ := r
  unfold turn
  dsimp only
  split
  · rfl
  next c cs =>
  split
  · next hblank => exact remaining_skip tokens opened spaced offset cs hblank
  next hblank =>
  rw [Bool.not_eq_true] at hblank
  split
  · next hscan => exact remaining_stuck tokens opened spaced offset hblank hscan
  next kind rest hscan =>
  obtain ⟨ds, hcs, hsize, htake⟩ := Lexeme.exists_text_of_scanToken hscan
  rw [hsize, htake]
  split
  · next hparens => exact remaining_unmatched tokens spaced hblank hscan hparens
  · next hparens =>
    subst hcs
    exact remaining_read spaced hblank hscan hparens

/-- Any number of turns leaves the same tokens to be found. -/
theorem remaining_eq_turns (n : Nat) (r : Reader) : r.remaining = (turns n r).bind remaining := by
  induction n generalizing r with
  | zero => rfl
  | succ n ih =>
    rw [remaining_eq_turn, turns]
    cases r.turn with
    | error e => rfl
    | ok r' => exact ih r'

/-- The tokens of a source are what is found after as many turns as it has characters. -/
theorem tokenize_eq_turns (source : List Char) :
    tokenize source = ((turns source.length (start source)).bind found).mapError
      fun e => ⟨e.1, source, e.2⟩ := by
  have hremaining : remaining (start source) = (turns source.length (start source)).bind found := by
    rw [remaining_eq_turns source.length]
    cases hturns : turns source.length (start source) with
    | error e => rfl
    | ok r =>
      have hrest : (start source).rest.length ≤ source.length := Nat.le_refl _
      exact remaining_of_rest_nil (turns_rest hrest hturns)
  rw [← hremaining, tokenize]
  show _ = ((tokensFrom none [] false 0 source).map ([] ++ ·)).mapError _
  cases tokensFrom none [] false 0 source with
  | error e => rfl
  | ok tokens => rfl

end Reader

end ItemStore.Expression
