import ItemStore.Expression.Compile
import ItemStore.Proofs.Expression.Phrases

/-
  What tokens become where literal types are inferred. `Yields ctx ts ps` says that tokens give
  the pieces `ps` in a context, whatever follows them; such facts are put together token by token
  (`yields_cons`, `yields_cons_before`) and end to end (`Yields.append`). A path at the end of an
  operand would be a function's name in front of a parenthesis, so `YieldsApart` leaves that out.

  A literal is a hole for its value where a value is expected, a path is holes for the names of
  its segments in front of an operator, in front of BETWEEN and IN, as a function's first argument
  and as an operand of ADD, REMOVE and DELETE, and all other lexemes are sent as they are.
-/

namespace ItemStore.Expression

open Text Lexeme Inferred

/-- Tokens give pieces in a context, whatever follows them. -/
def Yields (ctx : Context) (ts : List Token) (ps : Skeleton) : Prop :=
  ∀ us, skeletonFrom ctx (ts ++ us) = ps ++ skeletonFrom (ts.foldl Context.after ctx) us

theorem yields_nil (ctx : Context) : Yields ctx [] [] :=
  fun _ => rfl

theorem Yields.of_eq {ctx : Context} {ts : List Token} {ps qs : Skeleton} (h : Yields ctx ts ps)
    (he : ps = qs) : Yields ctx ts qs :=
  he ▸ h

theorem Yields.append {ctx : Context} {ts us : List Token} {ps qs : Skeleton}
    (h : Yields ctx ts ps) (h' : Yields (ts.foldl Context.after ctx) us qs) :
    Yields ctx (ts ++ us) (ps ++ qs) := by
  intro vs
  rw [List.append_assoc, h, h', List.foldl_append, List.append_assoc]

/-- A token that gives the same whatever follows it. -/
theorem yields_cons {ctx : Context} {t : Token} {ts : List Token} {ps qs : Skeleton}
    (hp : ∀ next, pieces ctx t next = ps) (h : Yields (ctx.after t) ts qs) :
    Yields ctx (t :: ts) (gap ctx.prev t ++ ps ++ qs) := by
  intro us
  rw [List.cons_append, skeletonFrom, hp, h, List.foldl_cons]
  simp only [List.append_assoc]

/-- A token that gives pieces because of the one behind it. -/
theorem yields_cons_before {ctx : Context} {t u : Token} {ts : List Token} {ps qs : Skeleton}
    (hp : pieces ctx t (some u) = ps) (h : Yields (ctx.after t) (u :: ts) qs) :
    Yields ctx (t :: u :: ts) (gap ctx.prev t ++ ps ++ qs) := by
  intro us
  have hrest := h us
  rw [List.cons_append] at hrest
  rw [List.cons_append, List.cons_append, skeletonFrom, List.head?_cons, hp, hrest]
  simp only [List.append_assoc]
  rfl

/-- What follows is no opening parenthesis, which would make a word in front of it a function's
name. -/
def Apart (us : List Token) : Prop :=
  ∀ u ∈ us.head?, (u.kind == .openParen) = false

/-- Tokens give pieces in a context, whatever follows them but an opening parenthesis. -/
def YieldsApart (ctx : Context) (ts : List Token) (ps : Skeleton) : Prop :=
  ∀ us, Apart us → skeletonFrom ctx (ts ++ us) = ps ++ skeletonFrom (ts.foldl Context.after ctx) us

theorem apart_nil : Apart [] :=
  nofun

theorem Apart.append {us vs : List Token} (hu : Apart us) (hv : Apart vs) : Apart (us ++ vs) := by
  cases us with
  | nil => exact hv
  | cons u us => exact hu

theorem apart_place {x : Lexeme} (hx : (x.kind == .openParen) = false) (xs : List Lexeme)
    (offset : Nat) : Apart (place offset (x :: xs)) := by
  intro u hu
  rw [← Option.some.inj (show some (x.token _) = some u from hu)]
  exact hx

theorem Yields.apart {ctx : Context} {ts : List Token} {ps : Skeleton} (h : Yields ctx ts ps) :
    YieldsApart ctx ts ps :=
  fun us _ => h us

theorem YieldsApart.of_eq {ctx : Context} {ts : List Token} {ps qs : Skeleton}
    (h : YieldsApart ctx ts ps) (he : ps = qs) : YieldsApart ctx ts qs :=
  he ▸ h

theorem Yields.appendApart {ctx : Context} {ts us : List Token} {ps qs : Skeleton}
    (h : Yields ctx ts ps) (h' : YieldsApart (ts.foldl Context.after ctx) us qs) :
    YieldsApart ctx (ts ++ us) (ps ++ qs) := by
  intro vs hv
  rw [List.append_assoc, h, h' vs hv, List.foldl_append, List.append_assoc]

theorem YieldsApart.append {ctx : Context} {ts us : List Token} {ps qs : Skeleton}
    (h : YieldsApart ctx ts ps) (hu : Apart us)
    (h' : YieldsApart (ts.foldl Context.after ctx) us qs) :
    YieldsApart ctx (ts ++ us) (ps ++ qs) := by
  intro vs hv
  rw [List.append_assoc, h _ (hu.append hv), h' vs hv, List.foldl_append, List.append_assoc]

theorem apart_flatMap {β : Type} {f : β → List Lexeme}
    (hf : ∀ y offset, Apart (place offset (f y))) (ys : List β) (offset : Nat) :
    Apart (place offset (ys.flatMap f)) := by
  induction ys generalizing offset with
  | nil => exact apart_nil
  | cons y ys ih =>
    rw [List.flatMap_cons, place_append]
    exact (hf y offset).append (ih _)

/-- Rows of lexemes give their pieces one behind the other if each keeps what it asks of the
context. -/
theorem yieldsApart_flatMap {β : Type} {P : Context → Prop} {f : β → List Lexeme}
    {ps : β → Skeleton} (hapart : ∀ y offset, Apart (place offset (f y)))
    (hf : ∀ ctx y offset, P ctx → YieldsApart ctx (place offset (f y)) (ps y) ∧
      P ((place offset (f y)).foldl Context.after ctx))
    (ctx : Context) (ys : List β) (offset : Nat) (h : P ctx) :
    YieldsApart ctx (place offset (ys.flatMap f)) (ys.flatMap ps) ∧
      P ((place offset (ys.flatMap f)).foldl Context.after ctx) := by
  induction ys generalizing ctx offset with
  | nil => exact ⟨(yields_nil ctx).apart, h⟩
  | cons y ys ih =>
    obtain ⟨hy, hnext⟩ := hf ctx y offset h
    obtain ⟨hys, hlast⟩ := ih _ (offset + (print (f y)).length) hnext
    rw [List.flatMap_cons, place_append, List.flatMap_cons, List.foldl_append]
    exact ⟨hy.append (apart_flatMap hapart ys _) hys, hlast⟩

/-! ## Gaps -/

/-- The space in front of a lexeme that closes nothing. -/
def lead (prev : Option Token) (space : List Char) : Skeleton :=
  if prev.any (fun p => p.kind != .openParen) && !space.isEmpty then [.char ' '] else []

/-- Neither a closing parenthesis nor a comma: a space may stand in front. -/
def takesSpace (kind : TokenKind) : Bool :=
  kind != .closeParen && kind != .comma

theorem takesSpace_spelling (l : Spelling) : takesSpace l.kind = true := by
  cases l <;> rfl

theorem not_openParen_spelling (l : Spelling) : (l.kind != .openParen) = true := by
  cases l <;> rfl

theorem gap_eq_lead (prev : Option Token) {x : Lexeme} (offset : Nat)
    (hx : takesSpace x.kind = true) :
    gap prev (x.token offset) = lead prev x.gap := by
  have hkind := Bool.and_eq_true_iff.mp hx
  unfold Inferred.gap lead Lexeme.token
  rw [hkind.1, hkind.2, Bool.and_true, Bool.and_true]

theorem lead_nil (prev : Option Token) : lead prev [] = [] := by
  unfold lead
  rw [List.isEmpty_nil, Bool.not_true, Bool.and_false]
  rfl

theorem lead_space {prev : Option Token} (h : prev.any (fun p => p.kind != .openParen) = true) :
    lead prev [' '] = [.char ' '] := by
  unfold lead
  rw [h]
  rfl

/-- No space stands in front of a closing parenthesis and of a comma. -/
theorem gap_of_not_takesSpace (prev : Option Token) {t : Token} (h : takesSpace t.kind = false) :
    gap prev t = [] := by
  unfold Inferred.gap
  rw [Bool.and_assoc]
  exact if_neg (by rw [show (t.kind != .closeParen && t.kind != .comma) = false from h,
    Bool.and_false]; decide)

/-! ## Pieces -/

theorem pieces_openParen (ctx : Context) (space : List Char) (offset : Nat) (next : Option Token) :
    pieces ctx ((openParen space).token offset) next = Skeleton.verbatim ['('] :=
  rfl

theorem pieces_closeParen (ctx : Context) (offset : Nat) (next : Option Token) :
    pieces ctx (closeParen.token offset) next = Skeleton.verbatim [')'] :=
  rfl

theorem pieces_comma (ctx : Context) (offset : Nat) (next : Option Token) :
    pieces ctx (comma.token offset) next = Skeleton.verbatim [','] :=
  rfl

/-- An operator is sent as it is. -/
theorem pieces_operator {x : Lexeme} (hx : x.kind = .operator) (ctx : Context) (offset : Nat)
    (next : Option Token) : pieces ctx (x.token offset) next = Skeleton.verbatim x.text := by
  obtain ⟨gap, kind, text⟩ := x
  cases hx
  rfl

theorem pieces_keyword (ctx : Context) (k : Keyword) (space : List Char) (offset : Nat)
    (next : Option Token) :
    pieces ctx ((k.lexeme space).token offset) next = Skeleton.verbatim k.text.toList := by
  show pathPieces ctx ((k.lexeme space).token offset) next = _
  rw [pathPieces, keyword?_keyword, ← text_keyword]
  rfl

/-- A literal is a hole for its value where a value is expected. -/
theorem pieces_spelling {ctx : Context} (h : ctx.prev.any Token.expectsValue = true)
    (l : Spelling) (space : List Char) (offset : Nat) (next : Option Token) :
    pieces ctx ((l.lexeme space).token offset) next = [.value l.literal] := by
  cases l with
  | string units => rfl
  | binary payload hne hp => rfl
  | number n =>
    have hsome : ctx.prev.isSome = true := by
      cases hprev : ctx.prev with
      | none =>
        rw [hprev] at h
        cases h
      | some t => rfl
    show (if ctx.prev.isSome then _ else _) = _
    rw [hsome]
    rfl
  | word w =>
    have hkeyword : (((Spelling.word w).lexeme space).token offset).keyword? = none :=
      ofWord?_of_isLiteralWord w.isLiteral
    have hliteral : literalAt ctx (((Spelling.word w).lexeme space).token offset) =
        some w.literal := by
      rw [literalAt, if_pos h]
      exact wordLiteral?_of_isLiteralWord w.isLiteral
    show pathPieces ctx _ next = _
    rw [pathPieces, hkeyword, hliteral]
    rfl

/-- A literal that is the same wherever it stands is a hole for its value behind any token. -/
theorem pieces_operand {ctx : Context} (h : ctx.prev.isSome = true) (o : Operand)
    (space : List Char) (offset : Nat) (next : Option Token) :
    pieces ctx ((o.literal.lexeme space).token offset) next = [.value o.literal.literal] := by
  obtain ⟨l, isOperand⟩ := o
  cases l with
  | string units => rfl
  | binary payload hne hp => rfl
  | number n =>
    show (if ctx.prev.isSome then _ else _) = _
    rw [h]
    rfl
  | word w => exact absurd isOperand Bool.false_ne_true

/-! ## Paths -/

/-- A step with a hole for its name. -/
def Step.pieces (s : Step) : Skeleton :=
  .name s.name.key :: (Digits.indexes s.indexes).map Piece.char

/-- A path with a hole for the name of each step, the indexes kept behind it. -/
def Path.skeleton (p : Path) : Skeleton :=
  p.head.pieces ++ p.tail.flatMap fun s => .char '.' :: s.pieces

theorem ofPath_segments (p : Path) : Skeleton.ofPath p.segments = p.skeleton := by
  have key : ∀ (s : Step) (ss : List Step),
      Skeleton.ofPath (s.segment :: ss.map Step.segment) =
        s.pieces ++ ss.flatMap fun s => .char '.' :: s.pieces := by
    intro s ss
    induction ss generalizing s with
    | nil => exact (List.append_nil _).symm
    | cons t ts ih =>
      rw [List.map_cons, Skeleton.ofPath, ih, List.flatMap_cons]
      · rfl
      · exact List.cons_ne_nil _ _
  exact key p.head p.tail

/-- A path that is a bare word is no word of the language. -/
theorem isReserved_of_bareWord? (p : Path) {space word : List Char} {offset : Nat}
    (h : ((p.lexeme space).token offset).bareWord? = some word) : isReserved word = false := by
  obtain ⟨head, tail, notNumber, notReserved⟩ := p
  have hnone : ¬(none : Option (List Char)) = some word := nofun
  cases tail with
  | cons s ss =>
    unfold Token.bareWord? at h
    split at h
    · next name heq =>
      have hlength := congrArg List.length (TokenKind.path.inj heq)
      exact absurd hlength (by simp [Path.segments])
    · exact absurd h hnone
  | nil =>
    have hhead := notReserved rfl
    obtain ⟨name, indexes⟩ := head
    cases name with
    | quoted mark body isMark fresh =>
      cases indexes with
      | nil => exact absurd h hnone
      | cons d ds => exact absurd h hnone
    | plain n =>
      cases indexes with
      | cons d ds => exact absurd h hnone
      | nil =>
        have hn : some n.text = some word := h
        rw [← Option.some.inj hn]
        exact hhead

theorem keyword?_of_not_reserved {t : Token}
    (h : ∀ word, t.bareWord? = some word → isReserved word = false) : t.keyword? = none := by
  unfold Token.keyword?
  cases hword : t.bareWord? with
  | none => rfl
  | some word =>
    have hr := h word hword
    rw [isReserved, Bool.or_eq_false_iff] at hr
    exact Option.isNone_iff_eq_none.mp (Option.isSome_eq_false_iff.mp hr.1)

theorem literalAt_of_not_reserved {t : Token} (ctx : Context)
    (h : ∀ word, t.bareWord? = some word → isReserved word = false) : literalAt ctx t = none := by
  unfold literalAt
  split
  · cases hword : t.bareWord? with
    | none => rfl
    | some word =>
      have hr := h word hword
      rw [isReserved, Bool.or_eq_false_iff] at hr
      exact Option.isNone_iff_eq_none.mp (Option.isSome_eq_false_iff.mp hr.2)
  · rfl

/-- A path is holes for its names where a name is expected. -/
theorem pieces_path {ctx : Context} {p : Path} {space : List Char} {offset : Nat}
    {next : Option Token}
    (h : isNamePosition ctx ((p.lexeme space).token offset) next = true) :
    pieces ctx ((p.lexeme space).token offset) next = p.skeleton := by
  have hword : ∀ word, ((p.lexeme space).token offset).bareWord? = some word →
      isReserved word = false :=
    fun _ => isReserved_of_bareWord? p
  show pathPieces ctx _ next = _
  rw [pathPieces, keyword?_of_not_reserved hword, literalAt_of_not_reserved ctx hword, h,
    ← ofPath_segments]
  rfl

/-! ## Where names are expected -/

/-- Only a parenthesis makes a word a function's name. -/
theorem isFunctionName_of_apart {t : Token} {us : List Token} (h : Apart us) :
    isFunctionName t us.head? = false := by
  unfold isFunctionName
  cases us with
  | nil => exact Bool.and_false _
  | cons u us =>
    have hu : (u.kind == .openParen) = false := h u rfl
    rw [List.head?_cons, Option.any_some, hu, Bool.false_and, Bool.and_false]

theorem isFunctionName_eq_false {t n : Token} (h : (n.kind == .openParen) = false) :
    isFunctionName t (some n) = false := by
  have hapart : Apart [n] := fun u hu => Option.some.inj hu ▸ h
  exact isFunctionName_of_apart hapart

/-- A name is expected in front of a comparison. -/
theorem isNamePosition_of_operator {ctx : Context} {t n : Token} (h : n.kind = .operator) :
    isNamePosition ctx t (some n) = true := by
  have hparen : (n.kind == .openParen) = false := by
    rw [h]
    rfl
  have hoperator : (n.kind == .operator) = true := by
    rw [h]
    rfl
  unfold isNamePosition
  rw [isFunctionName_eq_false hparen, Option.any_some, Option.any_some, hoperator]
  simp only [Bool.not_false, Bool.or_true, Bool.and_true]

/-- A name is expected in front of BETWEEN and IN. -/
theorem isNamePosition_of_isRange {ctx : Context} {t : Token} {k : Keyword}
    (hk : k.isRange = true) (space : List Char) (offset : Nat) :
    isNamePosition ctx t (some ((k.lexeme space).token offset)) = true := by
  have hrange : Token.isKeyword Keyword.isRange ((k.lexeme space).token offset) = true := by
    unfold Token.isKeyword
    rw [keyword?_keyword]
    exact hk
  unfold isNamePosition
  rw [isFunctionName_eq_false rfl, Option.any_some, Option.any_some, hrange]
  simp only [Bool.not_false, Bool.or_true, Bool.true_or, Bool.and_true]

/-- An operand of a clause that takes paths starts here. -/
def startsOperand (ctx : Context) : Bool :=
  ctx.prev.any (Token.isKeyword Keyword.takesOperands) ||
    ctx.prev.any fun p => p.kind == .comma && separatesOperands ctx.place

/-- A name is expected as an operand of a clause that takes paths. -/
theorem isNamePosition_of_startsOperand {ctx : Context} {t : Token} {us : List Token}
    (h : startsOperand ctx = true) (hu : Apart us) : isNamePosition ctx t us.head? = true := by
  have hoperand : (ctx.prev.any (Token.isKeyword Keyword.takesOperands) ||
      ctx.prev.any fun p => p.kind == .comma && separatesOperands ctx.place) = true := h
  unfold isNamePosition
  rw [isFunctionName_of_apart hu, Bool.or_assoc (t.segments.any _), hoperand]
  simp only [Bool.not_false, Bool.or_true, Bool.true_or, Bool.and_true]

theorem isFunctionName_lexeme (f : FunctionName) (space : List Char) (offset offset' : Nat) :
    isFunctionName ((f.lexeme space).token offset)
      (some ((openParen []).token offset')) = true := by
  have hkeyword : ((f.lexeme space).token offset).keyword? = none := by
    refine keyword?_of_not_reserved fun word hword => ?_
    rw [← Option.some.inj (show some f.name.text = some word from hword)]
    exact f.notReserved
  unfold isFunctionName
  rw [hkeyword]
  rfl

/-- A name is expected as the first argument of a function. -/
theorem isNamePosition_of_firstArgument {ctx : Context} {t n : Token} {f : FunctionName}
    {space : List Char} {offset offset' : Nat}
    (hf : ctx.prev₂ = some ((f.lexeme space).token offset))
    (hp : ctx.prev = some ((openParen []).token offset'))
    (hn : (n.kind == .openParen) = false) : isNamePosition ctx t (some n) = true := by
  have hfirst : isFirstArgument ctx = true := by
    unfold isFirstArgument
    rw [hf, hp, Option.any_some, Option.any_some, isFunctionName_lexeme]
    rfl
  unfold isNamePosition
  rw [isFunctionName_eq_false hn, hfirst]
  simp only [Bool.not_false, Bool.or_true, Bool.true_or, Bool.and_true]

/-- A function's name is sent as it is. -/
theorem pieces_functionName (ctx : Context) (f : FunctionName) (space : List Char)
    (offset offset' : Nat) :
    pieces ctx ((f.lexeme space).token offset) (some ((openParen []).token offset')) =
      Skeleton.verbatim f.name.text := by
  have hword : ∀ word, ((f.lexeme space).token offset).bareWord? = some word →
      isReserved word = false := by
    intro word hword
    rw [← Option.some.inj (show some f.name.text = some word from hword)]
    exact f.notReserved
  have hposition : isNamePosition ctx ((f.lexeme space).token offset)
      (some ((openParen []).token offset')) = false := by
    unfold isNamePosition
    rw [isFunctionName_lexeme, Bool.not_true, Bool.false_and]
  show pathPieces ctx _ _ = _
  rw [pathPieces, keyword?_of_not_reserved hword, literalAt_of_not_reserved ctx hword, hposition]
  rfl

/-! ## Lexemes in their places -/

theorem expectsValue_keyword (k : Keyword) (space : List Char) (offset : Nat) :
    ((k.lexeme space).token offset).expectsValue = true := by
  rw [Token.expectsValue, keyword?_keyword]
  exact Bool.or_true _

/-- A lexeme that gives the same whatever follows it, in front of others. -/
theorem yields_lexeme (ctx : Context) (x : Lexeme) (offset : Nat) {xs : List Lexeme}
    {ps qs : Skeleton} (hx : takesSpace x.kind = true)
    (hp : ∀ next, pieces ctx (x.token (offset + x.gap.length)) next = ps)
    (h : Yields (ctx.after (x.token (offset + x.gap.length)))
      (place (offset + x.gap.length + x.text.length) xs) qs) :
    Yields ctx (place offset (x :: xs)) (lead ctx.prev x.gap ++ ps ++ qs) := by
  rw [place, ← gap_eq_lead ctx.prev _ hx]
  exact yields_cons hp h

/-- A lexeme that gives pieces because of the one behind it. -/
theorem yields_lexeme_before (ctx : Context) (x : Lexeme) (offset : Nat) {y : Lexeme}
    {xs : List Lexeme} {ps qs : Skeleton} (hx : takesSpace x.kind = true)
    (hp : pieces ctx (x.token (offset + x.gap.length))
      (some (y.token (offset + x.gap.length + x.text.length + y.gap.length))) = ps)
    (h : Yields (ctx.after (x.token (offset + x.gap.length)))
      (place (offset + x.gap.length + x.text.length) (y :: xs)) qs) :
    Yields ctx (place offset (x :: y :: xs)) (lead ctx.prev x.gap ++ ps ++ qs) := by
  rw [place, place, ← gap_eq_lead ctx.prev _ hx]
  exact yields_cons_before hp h

/-- A lexeme that takes no space in front, in front of others. -/
theorem yields_tight {ctx : Context} {kind : TokenKind} {text : List Char} {offset : Nat}
    {xs : List Lexeme} {ps qs : Skeleton} (hkind : takesSpace kind = false)
    (hp : ∀ next, pieces ctx (Lexeme.token ⟨[], kind, text⟩ offset) next = ps)
    (h : Yields (ctx.after (Lexeme.token ⟨[], kind, text⟩ offset))
      (place (offset + text.length) xs) qs) :
    Yields ctx (place offset (⟨[], kind, text⟩ :: xs)) (ps ++ qs) := by
  have hcons := yields_cons hp h
  rw [gap_of_not_takesSpace ctx.prev hkind, List.nil_append] at hcons
  exact hcons

theorem yields_closeParen {ctx : Context} {xs : List Lexeme} {offset : Nat} {qs : Skeleton}
    (h : Yields (ctx.after (closeParen.token offset)) (place (offset + 1) xs) qs) :
    Yields ctx (place offset (closeParen :: xs)) (Skeleton.verbatim [')'] ++ qs) :=
  yields_tight rfl (pieces_closeParen ctx offset) h

theorem yields_comma {ctx : Context} {xs : List Lexeme} {offset : Nat} {qs : Skeleton}
    (h : Yields (ctx.after (comma.token offset)) (place (offset + 1) xs) qs) :
    Yields ctx (place offset (comma :: xs)) (Skeleton.verbatim [','] ++ qs) :=
  yields_tight rfl (pieces_comma ctx offset) h

/-- A literal with a space in front, where a value is expected. -/
theorem yields_spelling {ctx : Context} {l : Spelling} {xs : List Lexeme} {offset : Nat}
    {qs : Skeleton} (hv : ctx.prev.any Token.expectsValue = true)
    (hp : ctx.prev.any (fun p => p.kind != .openParen) = true)
    (h : Yields (ctx.after ((l.lexeme [' ']).token (offset + 1)))
      (place (offset + 1 + l.text.length) xs) qs) :
    Yields ctx (place offset (l.lexeme [' '] :: xs))
      (Piece.char ' ' :: .value l.literal :: qs) := by
  have hcons := yields_lexeme ctx (l.lexeme [' ']) offset (takesSpace_spelling l)
    (pieces_spelling hv l [' '] _) h
  rw [show (l.lexeme [' ']).gap = [' '] from rfl, lead_space hp] at hcons
  exact hcons

/-- A keyword with a space in front. -/
theorem yields_keyword {ctx : Context} (k : Keyword) (offset : Nat) {xs : List Lexeme}
    {qs : Skeleton} (hp : ctx.prev.any (fun p => p.kind != .openParen) = true)
    (h : Yields (ctx.after ((k.lexeme [' ']).token (offset + 1)))
      (place (offset + 1 + k.name.text.length) xs) qs) :
    Yields ctx (place offset (k.lexeme [' '] :: xs))
      (Piece.char ' ' :: (Skeleton.verbatim k.text.toList ++ qs)) := by
  have hcons := yields_lexeme ctx (k.lexeme [' ']) offset rfl (pieces_keyword ctx k [' '] _) h
  rw [show (k.lexeme [' ']).gap = [' '] from rfl, lead_space hp] at hcons
  exact hcons

/-- An operator with the literal behind it, each with a space in front. -/
theorem yields_operator {ctx : Context} {x : Lexeme} (hx : x.kind = .operator)
    (hgap : x.gap = [' ']) (l : Spelling) (offset : Nat)
    (hp : ctx.prev.any (fun p => p.kind != .openParen) = true) :
    Yields ctx (place offset [x, l.lexeme [' ']])
      (Piece.char ' ' :: (Skeleton.verbatim x.text ++ [.char ' ', .value l.literal])) := by
  obtain ⟨gap, kind, text⟩ := x
  cases hx
  cases hgap
  have hliteral : ∀ offset offset',
      Yields (ctx.after (Lexeme.token ⟨[' '], .operator, text⟩ offset))
        (place offset' [l.lexeme [' ']]) [.char ' ', .value l.literal] :=
    fun _ _ => yields_spelling rfl rfl (yields_nil _)
  have hcons := yields_lexeme ctx ⟨[' '], .operator, text⟩ offset rfl
    (pieces_operator rfl ctx _) (hliteral _ _)
  rw [lead_space hp] at hcons
  exact hcons

/-- A comparison with the literal behind it. -/
theorem yields_comparison {ctx : Context} (op : Comparison) (l : Spelling) (offset : Nat)
    (hp : ctx.prev.any (fun p => p.kind != .openParen) = true) :
    Yields ctx (place offset [op.lexeme, l.lexeme [' ']])
      (Piece.char ' ' :: (Skeleton.verbatim op.text.toList ++ [.char ' ', .value l.literal])) :=
  yields_operator rfl rfl l offset hp

/-- A path with a space in front, as an operand of a clause that takes paths. -/
theorem yieldsApart_path {ctx : Context} (p : Path) (offset : Nat)
    (hs : startsOperand ctx = true)
    (hp : ctx.prev.any (fun p => p.kind != .openParen) = true) :
    YieldsApart ctx (place offset [p.lexeme [' ']]) (.char ' ' :: p.skeleton) := by
  intro us hu
  have hpath : pieces ctx ((p.lexeme [' ']).token (offset + 1)) us.head? = p.skeleton :=
    pieces_path (isNamePosition_of_startsOperand hs hu)
  have hgap := gap_eq_lead ctx.prev (x := p.lexeme [' ']) (offset + 1) rfl
  rw [show (p.lexeme [' ']).gap = [' '] from rfl, lead_space hp] at hgap
  show gap ctx.prev ((p.lexeme [' ']).token (offset + 1)) ++
    pieces ctx ((p.lexeme [' ']).token (offset + 1)) us.head? ++ _ = _
  rw [hgap, hpath]
  rfl

/-- A path as an operand with a literal behind it, each with a space in front. -/
theorem yieldsApart_operand {ctx : Context} (p : Path) (o : Operand) (offset : Nat)
    (hs : startsOperand ctx = true)
    (hp : ctx.prev.any (fun p => p.kind != .openParen) = true) :
    YieldsApart ctx (place offset [p.lexeme [' '], o.literal.lexeme [' ']])
      (Piece.char ' ' :: (p.skeleton ++ [.char ' ', .value o.literal.literal])) := by
  have hparen : (o.literal.kind == .openParen) = false :=
    Bool.not_eq_true' _ ▸ not_openParen_spelling o.literal
  have hliteral : ∀ offset offset', Yields (ctx.after ((p.lexeme [' ']).token offset))
      (place offset' [o.literal.lexeme [' ']]) [.char ' ', .value o.literal.literal] :=
    fun _ offset' => yields_lexeme _ (o.literal.lexeme [' ']) offset'
      (takesSpace_spelling o.literal) (pieces_operand rfl o [' '] _) (yields_nil _)
  exact (yieldsApart_path p offset hs hp).append
    (apart_place (x := o.literal.lexeme [' ']) hparen [] _) (hliteral _ _).apart

/-- A call up to its first argument, which is holes for names. -/
theorem yields_call {ctx : Context} (f : FunctionName) (p : Path) {space : List Char} {y : Lexeme}
    {ys : List Lexeme} {qs : Skeleton} (offset : Nat) (hy : (y.kind == .openParen) = false)
    (h : ∀ ctx offset, Yields ctx (place offset (y :: ys)) qs) :
    Yields ctx (place offset (f.lexeme space :: openParen [] :: p.lexeme [] :: y :: ys))
      (lead ctx.prev space ++ Skeleton.verbatim f.name.text ++
        (Skeleton.verbatim ['('] ++ (p.skeleton ++ qs))) := by
  have hp := yields_lexeme_before
    ((ctx.after ((f.lexeme space).token (offset + space.length))).after
      ((openParen []).token (offset + space.length + f.name.text.length)))
    (p.lexeme []) (offset + space.length + f.name.text.length + 1) rfl
    (pieces_path (isNamePosition_of_firstArgument rfl rfl hy)) (h _ _)
  have ho := yields_lexeme _ (openParen []) _ rfl (pieces_openParen _ [] _) hp
  have hf := yields_lexeme_before ctx (f.lexeme space) offset rfl
    (pieces_functionName ctx f space _ _) ho
  refine hf.of_eq ?_
  rw [show (p.lexeme []).gap = [] from rfl, lead_nil, show (openParen []).gap = [] from rfl,
    lead_nil]
  rfl

/-- The kind of the last lexeme is that of the token before what follows. -/
theorem prev_after_place (ctx : Context) (xs : List Lexeme) (x : Lexeme) (offset : Nat) :
    ∃ offset', ((place offset (xs ++ [x])).foldl Context.after ctx).prev =
      some (x.token offset') := by
  refine ⟨offset + (print xs).length + x.gap.length, ?_⟩
  rw [place_append, List.foldl_append]
  rfl

/-- A source has the skeleton that its tokens give; white space alone has none. -/
theorem skeleton_inferred (source : List Char) :
    Expression.skeleton .inferred source = (tokenize source).map (skeletonFrom {}) := by
  rw [Expression.skeleton]
  split
  · next hblank => rw [tokenize, tokensFrom_blank (List.all_eq_true.mp hblank)]; rfl
  · show Inferred.skeleton source = _
    rw [Inferred.skeleton]
    cases tokenize source <;> rfl

/-- Legible lexemes that leave no parenthesis open have the skeleton that their tokens give. -/
theorem skeleton_print {xs : List Lexeme} {tail : List Char} (ht : ∀ c ∈ tail, isBlank c = true)
    (hl : Legible none tail xs) (hd : depthAfter 0 xs = some 0) :
    Expression.skeleton .inferred (print xs ++ tail) = .ok (skeletonFrom {} (place 0 xs)) := by
  rw [skeleton_inferred, tokenize_print ht hl hd]
  rfl

end ItemStore.Expression
