import ItemStore.Expression.Tokens

/-
  Sources as printed tokens. A lexeme is a token without its place, with the white space in front
  of it; `print` writes lexemes, and `place` gives them their offsets back.

  `tokenize_print`: when each lexeme is scanned from what is printed (`Legible`), whatever stands
  behind it, and no parenthesis is left open or closed without being open (`depthAfter`), the
  tokens of the printed source are the lexemes in their places. What a scan meets depends on the
  token before it only through its kind (`scanToken_eq_before`), so `Legible` needs no offsets.
-/

namespace ItemStore.Expression

open Text

/-- A token before it has a place: the white space in front of it, its kind and its text. -/
structure Lexeme where
  gap : List Char
  kind : TokenKind
  text : List Char
  deriving DecidableEq, Inhabited

namespace Lexeme

/-- The token of a lexeme whose text starts at an offset. -/
def token (x : Lexeme) (offset : Nat) : Token :=
  ⟨x.kind, x.text, offset, !x.gap.isEmpty⟩

/-- Lexemes as text. -/
def print : List Lexeme → List Char
  | [] => []
  | x :: xs => x.gap ++ x.text ++ print xs

/-- The tokens of lexemes that are printed from an offset on. -/
def place (offset : Nat) : List Lexeme → List Token
  | [] => []
  | x :: xs =>
    x.token (offset + x.gap.length) :: place (offset + x.gap.length + x.text.length) xs

theorem print_append (xs ys : List Lexeme) : print (xs ++ ys) = print xs ++ print ys := by
  induction xs with
  | nil => rfl
  | cons x xs ih => rw [List.cons_append, print, print, ih, ← List.append_assoc]

theorem place_append (offset : Nat) (xs ys : List Lexeme) :
    place offset (xs ++ ys) = place offset xs ++ place (offset + (print xs).length) ys := by
  induction xs generalizing offset with
  | nil => rfl
  | cons x xs ih =>
    rw [List.cons_append, place, place, ih, print, List.cons_append]
    simp only [List.length_append, Nat.add_assoc]

theorem print_flatMap {β : Type} (f : β → List Lexeme) (ys : List β) :
    print (ys.flatMap f) = ys.flatMap fun y => print (f y) := by
  induction ys with
  | nil => rfl
  | cons y ys ih => rw [List.flatMap_cons, print_append, ih, List.flatMap_cons]

/-! ## Legible lexemes -/

/-- A token of a kind, to stand before another. -/
def before (prev : Option TokenKind) : Option Token :=
  prev.map fun kind => ⟨kind, [], 0, false⟩

/-- The lexeme is scanned from its text with the given text behind it. -/
def Scans (prev : Option TokenKind) (x : Lexeme) (rest : List Char) : Prop :=
  ∃ c cs, x.text = c :: cs ∧ isBlank c = false ∧
    scanToken (before prev) c (cs ++ rest) = .ok (x.kind, rest)

/-- Each lexeme is scanned from what is printed, with the given text behind them all. -/
def Legible (prev : Option TokenKind) (rest : List Char) : List Lexeme → Prop
  | [] => True
  | x :: xs =>
    (∀ c ∈ x.gap, isBlank c = true) ∧ x.Scans prev (print xs ++ rest) ∧
      Legible (some x.kind) rest xs

/-- The kind of the last of the lexemes, or the one before them. -/
def kindAfter (prev : Option TokenKind) : List Lexeme → Option TokenKind
  | [] => prev
  | x :: xs => kindAfter (some x.kind) xs

theorem legible_append {prev : Option TokenKind} {rest : List Char} {xs ys : List Lexeme} :
    Legible prev rest (xs ++ ys) ↔
      Legible prev (print ys ++ rest) xs ∧ Legible (kindAfter prev xs) rest ys := by
  induction xs generalizing prev with
  | nil => exact ⟨fun h => ⟨trivial, h⟩, fun h => h.2⟩
  | cons x xs ih =>
    rw [List.cons_append, Legible, Legible, kindAfter, ih, print_append, List.append_assoc,
      and_assoc, and_assoc]

/-- How many parentheses are open after a token; none if it closes one that is not open. -/
def depthStep (depth : Nat) (kind : TokenKind) : Option Nat :=
  match kind with
  | .openParen => some (depth + 1)
  | .closeParen => if depth = 0 then none else some (depth - 1)
  | _ => some depth

/-- How many parentheses are open after lexemes. -/
def depthAfter (depth : Nat) (xs : List Lexeme) : Option Nat :=
  xs.foldlM (fun d x => depthStep d x.kind) depth

theorem depthAfter_cons {depth depth' : Nat} {x : Lexeme} {xs : List Lexeme} {r : Option Nat}
    (h : depthStep depth x.kind = some depth') (hr : depthAfter depth' xs = r) :
    depthAfter depth (x :: xs) = r := by
  rw [depthAfter, List.foldlM_cons, h]
  exact hr

theorem depthAfter_append {depth depth' : Nat} {xs : List Lexeme} (ys : List Lexeme)
    (h : depthAfter depth xs = some depth') :
    depthAfter depth (xs ++ ys) = depthAfter depth' ys := by
  unfold depthAfter at h ⊢
  rw [List.foldlM_append, h]
  rfl

theorem depthAfter_flatMap {β : Type} {f : β → List Lexeme}
    (hf : ∀ y depth, depthAfter depth (f y) = some depth) (depth : Nat) (ys : List β) :
    depthAfter depth (ys.flatMap f) = some depth := by
  induction ys with
  | nil => rfl
  | cons y ys ih => rw [List.flatMap_cons, depthAfter_append _ (hf y depth), ih]

/-- The depth counts the open parentheses. -/
theorem depthStep_length (opened : List Nat) (kind : TokenKind) (offset : Nat) :
    depthStep opened.length kind = (matchParens kind offset opened).map List.length := by
  cases kind with
  | closeParen =>
    cases opened with
    | nil => rfl
    | cons o opened => rfl
  | _ => rfl

/-- A parenthesis has nothing to close only where none is open. -/
theorem matchParens_eq_none_iff {kind : TokenKind} {offset : Nat} {opened : List Nat} :
    matchParens kind offset opened = none ↔ kind = .closeParen ∧ opened = [] := by
  cases kind with
  | closeParen => cases opened <;> simp [matchParens]
  | _ => simp [matchParens]

/-! ## Scanning -/

/-- A scan depends on the token before it only through its kind. -/
theorem scanToken_eq_before (prev : Option Token) (c : Char) (cs : List Char) :
    scanToken prev c cs = scanToken (before (prev.map Token.kind)) c cs := by
  cases prev with
  | none => rfl
  | some t => rfl

/-- White space before a token is passed over. -/
theorem tokensFrom_gap {gap : List Char} (hg : ∀ c ∈ gap, isBlank c = true)
    (prev : Option Token) (opened : List Nat) (spaced : Bool) (offset : Nat) (cs : List Char) :
    tokensFrom prev opened spaced offset (gap ++ cs) =
      tokensFrom prev opened (spaced || !gap.isEmpty) (offset + gap.length) cs := by
  induction gap generalizing spaced offset with
  | nil => rw [List.isEmpty_nil, Bool.not_true, Bool.or_false]; rfl
  | cons c gap ih =>
    rw [List.forall_mem_cons] at hg
    rw [List.cons_append, tokensFrom, if_pos hg.1, ih hg.2]
    simp only [List.isEmpty_cons, Bool.not_false, Bool.true_or, Bool.or_true, List.length_cons,
      Nat.add_assoc, Nat.add_comm 1]

/-- White space at the end gives no token. -/
theorem tokensFrom_blank {tail : List Char} (ht : ∀ c ∈ tail, isBlank c = true)
    (prev : Option Token) (spaced : Bool) (offset : Nat) :
    tokensFrom prev [] spaced offset tail = .ok [] := by
  rw [← List.append_nil tail, tokensFrom_gap ht, tokensFrom]

/-- A token is put in front of those of the text behind it. -/
theorem tokensFrom_cons (prev : Option Token) {opened opened' : List Nat} {kind : TokenKind}
    {c : Char} {cs rest : List Char} (spaced : Bool) (offset : Nat) (hc : isBlank c = false)
    (hs : scanToken prev c (cs ++ rest) = .ok (kind, rest))
    (hp : matchParens kind offset opened = some opened') :
    tokensFrom prev opened spaced offset (c :: cs ++ rest) =
      (tokensFrom (some ⟨kind, c :: cs, offset, spaced⟩) opened' false
        (offset + (c :: cs).length) rest).map (⟨kind, c :: cs, offset, spaced⟩ :: ·) := by
  have hsize : (c :: (cs ++ rest)).length - rest.length = (c :: cs).length := by
    simp only [List.length_cons, List.length_append]
    omega
  have htake : (c :: (cs ++ rest)).take (c :: cs).length = c :: cs := by
    rw [← List.cons_append, List.take_left]
  rw [List.cons_append, tokensFrom, if_neg (by rw [hc]; exact Bool.false_ne_true)]
  split
  · next fault rest' h =>
    rw [hs] at h
    cases h
  · next kind' rest' h =>
    rw [hs] at h
    cases h
    dsimp only
    rw [hp]
    dsimp only
    rw [hsize, htake]
    cases tokensFrom (some ⟨kind, c :: cs, offset, spaced⟩) opened' false
      (offset + (c :: cs).length) rest <;> rfl

/-- A token that has a fault is where the tokens end. -/
theorem tokensFrom_stuck {prev : Option Token} (opened : List Nat) (spaced : Bool) (offset : Nat)
    {c : Char} {cs rest : List Char} {fault : Fault} (hc : isBlank c = false)
    (hs : scanToken prev c cs = .error (fault, rest)) :
    tokensFrom prev opened spaced offset (c :: cs) =
      .error (fault, offset + ((c :: cs).length - rest.length)) := by
  rw [tokensFrom, if_neg (by rw [hc]; exact Bool.false_ne_true)]
  split
  · next h =>
    rw [hs] at h
    cases h
    rfl
  · next h =>
    rw [hs] at h
    cases h

/-- So is a parenthesis that closes none. -/
theorem tokensFrom_unmatched {prev : Option Token} {opened : List Nat} (spaced : Bool)
    {offset : Nat} {c : Char} {cs rest : List Char} {kind : TokenKind} (hc : isBlank c = false)
    (hs : scanToken prev c cs = .ok (kind, rest))
    (hp : matchParens kind offset opened = none) :
    tokensFrom prev opened spaced offset (c :: cs) = .error (.unmatchedClose, offset) := by
  rw [tokensFrom, if_neg (by rw [hc]; exact Bool.false_ne_true)]
  split
  · next h =>
    rw [hs] at h
    cases h
  · next h =>
    rw [hs] at h
    cases h
    dsimp only
    rw [hp]

/-- The last of the tokens, or the one before them. -/
def lastToken (prev : Option Token) : List Token → Option Token
  | [] => prev
  | t :: ts => lastToken (some t) ts

/-- Legible lexemes are the first tokens of what they print, whatever stands behind them. -/
theorem tokensFrom_print_append (prev : Option Token) (opened : List Nat) (offset : Nat)
    {rest : List Char} {xs : List Lexeme} {depth : Nat}
    (hl : Legible (prev.map Token.kind) rest xs)
    (hd : depthAfter opened.length xs = some depth) :
    ∃ opened', opened'.length = depth ∧
      tokensFrom prev opened false offset (print xs ++ rest) =
        (tokensFrom (lastToken prev (place offset xs)) opened' false
          (offset + (print xs).length) rest).map (place offset xs ++ ·) := by
  induction xs generalizing prev opened offset with
  | nil =>
    refine ⟨opened, Option.some.inj hd, ?_⟩
    show tokensFrom prev opened false offset rest =
      (tokensFrom prev opened false offset rest).map id
    cases tokensFrom prev opened false offset rest <;> rfl
  | cons x xs ih =>
    obtain ⟨hgap, ⟨c, cs, htext, hblank, hscan⟩, hrest⟩ := hl
    rw [← scanToken_eq_before] at hscan
    have hstep := depthStep_length opened x.kind (offset + x.gap.length)
    cases hopened : matchParens x.kind (offset + x.gap.length) opened with
    | none =>
      rw [hopened] at hstep
      rw [depthAfter, List.foldlM_cons, hstep] at hd
      cases hd
    | some opened' =>
      rw [hopened] at hstep
      rw [depthAfter, List.foldlM_cons, hstep] at hd
      have hcons := tokensFrom_cons prev (false || !x.gap.isEmpty) _ hblank hscan hopened
      obtain ⟨opened'', hlength, hnext⟩ := ih (some (x.token (offset + x.gap.length))) opened'
        (offset + x.gap.length + x.text.length) hrest hd
      refine ⟨opened'', hlength, ?_⟩
      rw [print, List.append_assoc, List.append_assoc, tokensFrom_gap hgap, htext, hcons, ← htext]
      refine (congrArg _ hnext).trans ?_
      rw [List.length_append, List.length_append, ← Nat.add_assoc, ← Nat.add_assoc, place,
        lastToken]
      cases tokensFrom (lastToken (some (x.token (offset + x.gap.length)))
        (place (offset + x.gap.length + x.text.length) xs)) opened'' false
        (offset + x.gap.length + x.text.length + (print xs).length) rest <;> rfl

/-- Legible lexemes are the tokens of what they print, up to white space behind them. -/
theorem tokensFrom_print (prev : Option Token) (opened : List Nat) (offset : Nat)
    {tail : List Char} {xs : List Lexeme} (ht : ∀ c ∈ tail, isBlank c = true)
    (hl : Legible (prev.map Token.kind) tail xs) (hd : depthAfter opened.length xs = some 0) :
    tokensFrom prev opened false offset (print xs ++ tail) = .ok (place offset xs) := by
  obtain ⟨opened', hlength, htokens⟩ := tokensFrom_print_append prev opened offset hl hd
  rw [htokens, List.eq_nil_of_length_eq_zero hlength, tokensFrom_blank ht]
  exact congrArg Except.ok (List.append_nil _)

theorem tokenize_print {xs : List Lexeme} {tail : List Char} (ht : ∀ c ∈ tail, isBlank c = true)
    (hl : Legible none tail xs) (hd : depthAfter 0 xs = some 0) :
    tokenize (print xs ++ tail) = .ok (place 0 xs) := by
  have htokens := tokensFrom_print none [] 0 ht hl hd
  rw [tokenize, htokens]

end Lexeme

end ItemStore.Expression
