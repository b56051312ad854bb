import ItemStore.Expression.Token

/-
  A source split into tokens. What a character starts can depend on the token before it: a minus
  sign belongs to a number where a value is expected, and a hyphen does not join names directly
  after an operator. Parentheses are matched on the way, so that the first fault met is the one
  that is told.
-/

namespace ItemStore.Expression

open Text

/-- A fault and the text from where it is. -/
abbrev Stuck := Fault × List Char

/-- A fault in a path, in an expression; `missing` is the offset of a missing name. -/
def PathFault.toFault (missing : Nat) : PathFault → Fault
  | .unclosedName => .unclosedName
  | .missingName => .missingName missing

/-- The text after a number at this place, with its sign where a value is expected. -/
def scanNumberAfter (prev : Option Token) (cs : List Char) : Option (List Char) :=
  match if valueExpected prev then scanSignedNumber cs else none with
  | some rest => some rest
  | none => scanNumber cs

/-- Whether hyphens may join names after a token. -/
def joinsNames (prev : Option Token) : Bool :=
  !prev.any fun t => t.kind == .operator

/-- The token of one character, or a path. -/
def scanWordOrSign (prev : Option Token) (c : Char) (cs : List Char) :
    Except Stuck (TokenKind × List Char) :=
  if c = '(' then .ok (.openParen, cs)
  else if c = ')' then .ok (.closeParen, cs)
  else if c = ',' then .ok (.comma, cs)
  else
    match scanPlaceholder (c :: cs) with
    | some rest => .ok (.placeholder, rest)
    | none =>
      if startsSegment (c :: cs) then
        match scanPath (joinsNames prev) (c :: cs) with
        | .ok (segments, rest) => .ok (.path segments, rest)
        | .error (fault, rest) => .error (fault.toFault 0, rest)
      else .ok (.other, cs)

/-- The token that starts with a character that is no white space, and the text after it. -/
def scanToken (prev : Option Token) (c : Char) (cs : List Char) :
    Except Stuck (TokenKind × List Char) :=
  if c = '\x27' then
    match scanString cs with
    | some (payload, rest) => .ok (.string payload, rest)
    | none => .error (.unclosedText, c :: cs)
  else
    match scanNumberAfter prev (c :: cs) with
    | some rest => .ok (.number, rest)
    | none =>
      match scanBinary (c :: cs) with
      | some (payload, rest) => .ok (.binary payload, rest)
      | none =>
        match scanOperator (c :: cs) with
        | some rest => .ok (.operator, rest)
        | none => scanWordOrSign prev c cs

theorem scanNumberAfter_length {prev : Option Token} {cs rest : List Char}
    (h : scanNumberAfter prev cs = some rest) : rest.length < cs.length := by
  unfold scanNumberAfter at h
  split at h
  · next rest' hs =>
    simp only [Option.some.injEq] at h
    subst h
    split at hs
    · exact scanSignedNumber_length hs
    · simp at hs
  · exact scanNumber_length h

theorem scanWordOrSign_length {prev : Option Token} {c : Char} {cs rest : List Char}
    {kind : TokenKind} (h : scanWordOrSign prev c cs = .ok (kind, rest)) :
    rest.length < (c :: cs).length := by
  unfold scanWordOrSign at h
  have single : ∀ {k : TokenKind}, (Except.ok (k, cs) : Except Stuck _) = .ok (kind, rest) →
      rest.length < (c :: cs).length := by
    intro k hk
    simp only [Except.ok.injEq, Prod.mk.injEq] at hk
    simp [hk.2]
  split at h
  · exact single h
  split at h
  · exact single h
  split at h
  · exact single h
  split at h
  · next hp =>
    simp only [Except.ok.injEq, Prod.mk.injEq] at h
    exact h.2 ▸ scanPlaceholder_length hp
  split at h
  · split at h
    · next hp =>
      simp only [Except.ok.injEq, Prod.mk.injEq] at h
      exact h.2 ▸ scanPath_length hp
    · simp at h
  · exact single h

theorem scanToken_length {prev : Option Token} {c : Char} {cs rest : List Char}
    {kind : TokenKind} (h : scanToken prev c cs = .ok (kind, rest)) :
    rest.length < (c :: cs).length := by
  unfold scanToken at h
  split at h
  · split at h
    · next hs =>
      have := scanString_length hs
      simp only [Except.ok.injEq, Prod.mk.injEq] at h
      rw [← h.2]
      simp only [List.length_cons]
      omega
    · simp at h
  · split at h
    · next hn =>
      simp only [Except.ok.injEq, Prod.mk.injEq] at h
      exact h.2 ▸ scanNumberAfter_length hn
    · split at h
      · next hb =>
        simp only [Except.ok.injEq, Prod.mk.injEq] at h
        exact h.2 ▸ scanBinary_length hb
      · split at h
        · next ho =>
          simp only [Except.ok.injEq, Prod.mk.injEq] at h
          exact h.2 ▸ scanOperator_length ho
        · exact scanWordOrSign_length h

/-- The open parentheses after a token, innermost first, by their offsets; none if the token
closes one and there is none to close. -/
def matchParens (kind : TokenKind) (offset : Nat) (opened : List Nat) : Option (List Nat) :=
  match kind with
  | .openParen => some (offset :: opened)
  | .closeParen =>
    match opened with
    | [] => none
    | _ :: outer => some outer
  | _ => some opened

/-- The tokens of the rest of a source: `prev` is the token before it, `opened` the offsets of
the parentheses open there, `spaced` whether white space stands directly before it and `offset`
where it starts. -/
def tokensFrom (prev : Option Token) (opened : List Nat) (spaced : Bool) (offset : Nat)
    (cs : List Char) : Except (Fault × Nat) (List Token) :=
  match cs with
  | [] =>
    match opened with
    | [] => .ok []
    | paren :: _ => .error (.unmatchedOpen, paren)
  | c :: cs =>
    if isBlank c then tokensFrom prev opened true (offset + 1) cs
    else
      match h : scanToken prev c cs with
      | .error (fault, rest) => .error (fault, offset + ((c :: cs).length - rest.length))
      | .ok (kind, rest) =>
        have := scanToken_length h
        let size := (c :: cs).length - rest.length
        match matchParens kind offset opened with
        | none => .error (.unmatchedClose, offset)
        | some opened =>
          let token : Token := ⟨kind, (c :: cs).take size, offset, spaced⟩
          match tokensFrom (some token) opened false (offset + size) rest with
          | .error e => .error e
          | .ok tokens => .ok (token :: tokens)
termination_by cs.length
decreasing_by all_goals (simp only [List.length_cons] at *; omega)

/-- The tokens of a source. -/
def tokenize (source : List Char) : Except Error (List Token) :=
  match tokensFrom none [] false 0 source with
  | .ok tokens => .ok tokens
  | .error (fault, offset) => .error ⟨fault, source, offset⟩

end ItemStore.Expression
