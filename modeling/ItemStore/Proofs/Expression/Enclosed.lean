import ItemStore.Proofs.Expression.Bindings
import ItemStore.Proofs.Expression.Chunks
import ItemStore.Proofs.Expression.Closed
import ItemStore.Proofs.Expression.Opaque

/-
  Sources between parentheses, where literal types are inferred. A source that stands on its own
  reads the same between parentheses (`yields_enclosed`) if no keyword of it opens a clause and its
  first token is neither a number nor a word for null or a boolean (`Enclosable`): these are text
  at the start of a source and literals behind a parenthesis.

  Two seams have to hold. No token is scanned across them: a closing parenthesis is a barrier, and
  an angle bracket that reaches it is not closed behind it (`Seals`). And no token tells another
  across them what it is: behind its first token, a source's tokens have the same neighbours in
  parentheses as alone, the depth counts only inside a clause, and what stands in front of the
  opening parenthesis is no function's name (`Enclosed`).

  `compile_conjoined`: so two such sources, each in parentheses and joined by AND, compile to the
  conjunction of what they compile to, the second with placeholders that go on from the first.
-/

namespace ItemStore

/-- Two texts in parentheses, joined by AND. -/
def conjoined (a b : String) : String :=
  "(" ++ a ++ ") AND (" ++ b ++ ")"

theorem conjoined_ne_empty (a b : String) : conjoined a b ≠ "" := by
  intro h
  have hlength := congrArg String.length h
  simp [conjoined, String.length_append] at hlength

/-- The conjunction of two expressions, with the placeholders of both. -/
def Compiled.conjoined (c d : Compiled) : Compiled where
  expression := ItemStore.conjoined c.expression d.expression
  names := c.names ++ d.names
  values := c.values ++ d.values

namespace Expression

open Text Lexeme Inferred

/-! ## Scanning in front of a closing parenthesis -/

/-- A text that takes nothing from what is scanned in front of it: a barrier behind which no angle
bracket is closed. -/
structure Seals (z : List Char) : Prop where
  barrier : Barrier z
  unclosed : Stops (· == '>') (z.dropWhile isBinaryChar)

/-- No angle bracket is closed behind white space or at the end. -/
theorem unclosed_of_blank {z : List Char} (h : ∀ c ∈ z.head?, isBlank c = true) :
    Stops (· == '>') (z.dropWhile isBinaryChar) := by
  have hstops : Stops isBinaryChar z := by
    intro c hc
    rw [isBinaryChar, h c hc]
    rfl
  rw [dropWhile_of_stops hstops]
  intro c hc
  exact beq_eq_false_iff_ne.mpr (ne_of_class (h c hc) (by decide +kernel))

/-- White space or the end seals a closing parenthesis. -/
theorem seals_closeParen {z : List Char} (h : ∀ c ∈ z.head?, isBlank c = true) :
    Seals (')' :: z) := by
  refine ⟨barrier_cons.mpr (by decide +kernel), ?_⟩
  rw [List.dropWhile_cons_of_pos (by decide +kernel)]
  exact unclosed_of_blank h

namespace Lexeme

/-- What seals the text behind a lexeme changes nothing in how the lexeme is scanned. -/
theorem scans_append_iff {prev : Option TokenKind} {x : Lexeme} {rest z : List Char}
    (hz : Seals z) : Scans prev x (rest ++ z) ↔ Scans prev x rest := by
  unfold Scans
  simp only [← List.append_assoc, scanToken_append_of_scanBinary hz.barrier
    (scanBinary_append_of_unclosed hz.unclosed _ _)]

theorem Legible.append {prev : Option TokenKind} {rest z : List Char} {xs : List Lexeme}
    (hz : Seals z) (h : Legible prev rest xs) : Legible prev (rest ++ z) xs := by
  induction xs generalizing prev with
  | nil => trivial
  | cons x xs ih =>
    obtain ⟨hgap, hscan, hrest⟩ := h
    refine ⟨hgap, ?_, ih hrest⟩
    rw [← List.append_assoc]
    exact (scans_append_iff hz).mpr hscan

theorem Legible.behind_openParen {rest : List Char} {xs : List Lexeme}
    (h : Legible none rest xs) : Legible (some .openParen) rest xs := by
  cases xs with
  | nil => trivial
  | cons x xs => exact h

/-- Lexemes between parentheses, with a gap in front of either. -/
def enclosed (gap : List Char) (xs : List Lexeme) (tail : List Char) : List Lexeme :=
  openParen gap :: (xs ++ [⟨tail, .closeParen, [')']⟩])

theorem print_enclosed (gap : List Char) (xs : List Lexeme) (tail : List Char) :
    print (enclosed gap xs tail) = gap ++ '(' :: (print xs ++ tail ++ [')']) := by
  rw [enclosed, print, print_append]
  simp [openParen, print]

/-- A source that is legible alone is so between parentheses. -/
theorem legible_enclosed {prev : Option TokenKind} {gap tail z : List Char} {xs : List Lexeme}
    (hgap : ∀ c ∈ gap, isBlank c = true) (htail : ∀ c ∈ tail, isBlank c = true)
    (h : Legible none tail xs) (hz : ∀ c ∈ z.head?, isBlank c = true) :
    Legible prev z (enclosed gap xs tail) := by
  refine ⟨hgap, scans_openParen prev gap _, legible_append.mpr ⟨?_, htail, ?_, trivial⟩⟩
  · have hseal := h.behind_openParen.append (seals_closeParen hz)
    simpa [print, openParen] using hseal
  · exact scans_closeParen _ z

theorem depthStep_add {depth depth' : Nat} {kind : TokenKind}
    (h : depthStep depth kind = some depth') (outer : Nat) :
    depthStep (depth + outer) kind = some (depth' + outer) := by
  cases kind with
  | openParen =>
    cases h
    exact congrArg some (Nat.add_right_comm depth outer 1)
  | closeParen =>
    unfold depthStep at h ⊢
    by_cases hd : depth = 0
    · rw [if_pos hd] at h
      cases h
    · rw [if_neg hd, Option.some.injEq] at h
      rw [if_neg (by omega), Option.some.injEq]
      omega
  | _ =>
    cases h
    rfl

/-- Parentheses that match do so inside others. -/
theorem depthAfter_add {depth depth' : Nat} {xs : List Lexeme}
    (h : depthAfter depth xs = some depth') (outer : Nat) :
    depthAfter (depth + outer) xs = some (depth' + outer) := by
  induction xs generalizing depth with
  | nil =>
    cases h
    rfl
  | cons x xs ih =>
    rw [depthAfter, List.foldlM_cons] at h
    cases hstep : depthStep depth x.kind with
    | none =>
      rw [hstep] at h
      cases h
    | some next =>
      rw [hstep] at h
      exact depthAfter_cons (depthStep_add hstep outer) (ih h)

theorem depthAfter_enclosed {gap tail : List Char} {xs : List Lexeme}
    (h : depthAfter 0 xs = some 0) (depth : Nat) :
    depthAfter depth (enclosed gap xs tail) = some depth := by
  have hxs := depthAfter_add h (depth + 1)
  rw [Nat.zero_add] at hxs
  refine depthAfter_cons rfl ((depthAfter_append _ hxs).trans ?_)
  exact depthAfter_cons rfl rfl

end Lexeme

/-! ## Inside parentheses -/

/-- A closing parenthesis tells what the end of a source tells. -/
theorem sameBehind_closeParen (gap : List Char) (offset : Nat) :
    SameBehind none (some (Lexeme.token ⟨gap, .closeParen, [')']⟩ offset)) :=
  ⟨rfl, rfl, rfl⟩

/-- A token that reads the same at the start of a source and behind an opening parenthesis: it is
neither a number nor a word for null or a boolean. -/
def standsFirst (t : Token) : Bool :=
  t.kind != .number && (t.bareWord?.bind wordLiteral?).isNone

/-- The second context is the first one inside parentheses that are open there: no clause is open
in either, and behind the first token the tokens in front are the same. -/
structure Enclosed (ctx ctx' : Context) : Prop where
  clause_eq : ctx.place.clause = none
  clause_eq' : ctx'.place.clause = none
  prev : Option.Rel Alike ctx.prev ctx'.prev
  firstArgument_eq : isFirstArgument ctx = isFirstArgument ctx'

/-- Where no clause is open a comma separates no operands. -/
theorem not_separatesOperands {p : Place} (h : p.clause = none) : separatesOperands p = false := by
  unfold separatesOperands
  rw [h]

theorem Enclosed.same {ctx ctx' : Context} (h : Enclosed ctx ctx') : SameBefore ctx ctx' where
  operand_eq := any_of_alike h.prev fun _ _ hp => by cases hp <;> rfl
  comma_eq := by
    rw [not_separatesOperands h.clause_eq, not_separatesOperands h.clause_eq']
    exact any_of_alike h.prev fun _ _ hp => by cases hp <;> rfl
  firstArgument_eq := h.firstArgument_eq

/-- A token that opens no clause leaves none open. -/
theorem clause_after {p : Place} {t : Token} (hp : p.clause = none)
    (ht : t.isKeyword Keyword.opensClause = false) : (p.after t).clause = none := by
  unfold Place.after
  split
  · exact hp
  · exact hp
  · split
    · next k hk =>
      have hopens : k.opensClause = false := by
        unfold Token.isKeyword at ht
        rw [hk] at ht
        exact ht
      rw [hopens]
      exact hp
    · exact hp

/-- Whether the token behind is a function's first argument depends on this one and the one before
it. -/
theorem Enclosed.of_prev (ctx ctx' : Context) (hc : ctx.place.clause = none)
    (hc' : ctx'.place.clause = none) {t u : Token} (htu : Alike t u)
    (ht : t.isKeyword Keyword.opensClause = false)
    (hcall : ctx.prev.any (fun f => isFunctionName f (some t)) =
      ctx'.prev.any fun f => isFunctionName f (some u)) :
    Enclosed (ctx.after t) (ctx'.after u) where
  clause_eq := clause_after hc ht
  clause_eq' := by
    refine clause_after hc' (Eq.trans ?_ ht)
    cases htu <;> rfl
  prev := .some htu
  firstArgument_eq := by
    have hparen : (t.kind == .openParen) = (u.kind == .openParen) := by cases htu <;> rfl
    show (t.kind == .openParen && ctx.prev.any fun f => isFunctionName f (some t)) =
      (u.kind == .openParen && ctx'.prev.any fun f => isFunctionName f (some u))
    rw [hparen, hcall]

theorem Enclosed.after {ctx ctx' : Context} (h : Enclosed ctx ctx') {t u : Token}
    (htu : Alike t u) (ht : t.isKeyword Keyword.opensClause = false) :
    Enclosed (ctx.after t) (ctx'.after u) := by
  refine .of_prev ctx ctx' h.clause_eq h.clause_eq' htu ht ?_
  calc ctx.prev.any (fun f => isFunctionName f (some t))
      = ctx'.prev.any (fun f => isFunctionName f (some t)) :=
        any_of_alike h.prev fun _ _ hf => by cases hf <;> rfl
    _ = ctx'.prev.any fun f => isFunctionName f (some u) := by
        simp only [isFunctionName_of_alike (Alike.refl _) (.some htu)]

/-- Behind lexemes of a source stands the next of them, or else its closing parenthesis. -/
theorem sameBehind_head? (xs : List Lexeme) (tail : List Char) (offset offset' : Nat)
    (us : List Token) :
    SameBehind (place offset xs).head?
      (place offset' (xs ++ [⟨tail, .closeParen, [')']⟩]) ++ us).head? := by
  cases xs with
  | nil => exact sameBehind_closeParen tail _
  | cons x xs => exact sameBehind_of_alike (.some (.lexeme x _ _))

theorem yields_close (ctx : Context) (tail : List Char) (offset : Nat) :
    Yields ctx (place offset [⟨tail, .closeParen, [')']⟩]) (Skeleton.verbatim [')']) := by
  have hgap : ∀ t : Token, t.kind = .closeParen → gap ctx.prev t = [] := by
    intro t ht
    unfold Inferred.gap
    rw [ht]
    cases ctx.prev.any (fun p => p.kind != .openParen) <;> cases t.spaced <;> rfl
  refine (yields_cons (fun _ => rfl) (yields_nil _)).of_eq ?_
  rw [hgap _ rfl, List.append_nil, List.nil_append]
  rfl

/-- A lexeme gives the same inside parentheses as outside, if it has the same space in front and
its neighbours tell the same; so it can be put in front of lexemes that do. -/
theorem yields_cons_inside {ctx ctx' : Context} {x : Lexeme} {xs : List Lexeme} {tail : List Char}
    {offset offset' : Nat} (hsame : SameBefore ctx ctx')
    (hgap : gap ctx.prev (x.token (offset + x.gap.length)) =
      gap ctx'.prev (x.token (offset' + x.gap.length)))
    (hnumber : x.kind = .number → ctx.prev.isSome = ctx'.prev.isSome)
    (hliteral : literalAt ctx (x.token (offset + x.gap.length)) =
      literalAt ctx' (x.token (offset' + x.gap.length)))
    (hrest : Yields (ctx'.after (x.token (offset' + x.gap.length)))
      (place (offset' + x.gap.length + x.text.length) (xs ++ [⟨tail, .closeParen, [')']⟩]))
      (skeletonFrom (ctx.after (x.token (offset + x.gap.length)))
        (place (offset + x.gap.length + x.text.length) xs) ++ Skeleton.verbatim [')'])) :
    Yields ctx' (place offset' (x :: xs ++ [⟨tail, .closeParen, [')']⟩]))
      (skeletonFrom ctx (place offset (x :: xs)) ++ Skeleton.verbatim [')']) := by
  intro us
  have hpieces := pieces_of_same hsame
    (sameBehind_head? xs tail (offset + x.gap.length + x.text.length)
      (offset' + x.gap.length + x.text.length) us) hnumber hliteral
  rw [List.cons_append, place, List.cons_append, skeletonFrom, hrest us, ← hpieces, ← hgap, place,
    skeletonFrom]
  simp only [List.append_assoc]
  rfl

/-- Lexemes inside parentheses give what they give outside, and leave no clause open. -/
theorem yields_inside {ctx ctx' : Context} (h : Enclosed ctx ctx') {xs : List Lexeme}
    (hxs : ∀ x ∈ xs, (x.token 0).isKeyword Keyword.opensClause = false) (tail : List Char)
    (offset offset' : Nat) :
    Yields ctx' (place offset' (xs ++ [⟨tail, .closeParen, [')']⟩]))
        (skeletonFrom ctx (place offset xs) ++ Skeleton.verbatim [')']) ∧
      ((place offset' (xs ++ [⟨tail, .closeParen, [')']⟩])).foldl Context.after
        ctx').place.clause = none := by
  induction xs generalizing ctx ctx' offset offset' with
  | nil => exact ⟨yields_close ctx' tail offset', h.clause_eq'⟩
  | cons x xs ih =>
    rw [List.forall_mem_cons] at hxs
    have hx := Alike.lexeme x (offset + x.gap.length) (offset' + x.gap.length)
    obtain ⟨hrest, hclosed⟩ := ih (h.after hx hxs.1) hxs.2
      (offset + x.gap.length + x.text.length) (offset' + x.gap.length + x.text.length)
    exact ⟨yields_cons_inside h.same (gap_of_alike h.prev hx) (fun _ => isSome_of_alike h.prev)
      (literalAt_of_alike h.prev x _ _) hrest, hclosed⟩

/-- Behind an opening parenthesis that follows no function's name, a path meets what it meets at
the start of a source. -/
theorem sameBefore_openParen {ctx : Context} (gap : List Char) (offset : Nat)
    (hcall : (ctx.prev.any fun f =>
      isFunctionName f (some ((openParen gap).token offset))) = false) :
    SameBefore {} (ctx.after ((openParen gap).token offset)) where
  operand_eq := rfl
  comma_eq := rfl
  firstArgument_eq := hcall.symm

/-- The lexemes of a source give the same behind an opening parenthesis as alone. -/
theorem yields_behind_openParen {ctx : Context} {gap : List Char} {offset : Nat}
    (hclause : ctx.place.clause = none)
    (hcall : (ctx.prev.any fun f =>
      isFunctionName f (some ((openParen gap).token offset))) = false)
    {xs : List Lexeme} (hxs : ∀ x ∈ xs, (x.token 0).isKeyword Keyword.opensClause = false)
    (hfirst : ∀ x ∈ xs.head?, standsFirst (x.token 0) = true) (tail : List Char)
    (offset' : Nat) :
    let ctx' := ctx.after ((openParen gap).token offset)
    Yields ctx' (place offset' (xs ++ [⟨tail, .closeParen, [')']⟩]))
        (skeletonFrom {} (place 0 xs) ++ Skeleton.verbatim [')']) ∧
      ((place offset' (xs ++ [⟨tail, .closeParen, [')']⟩])).foldl Context.after
        ctx').place.clause = none := by
  intro ctx'
  have hclause' : ctx'.place.clause = none := hclause
  cases xs with
  | nil => exact ⟨yields_close ctx' tail offset', hclause'⟩
  | cons x xs =>
    rw [List.forall_mem_cons] at hxs
    have hstands := Bool.and_eq_true_iff.mp (hfirst x rfl)
    have hliteral : literalAt {} (x.token (0 + x.gap.length)) =
        literalAt ctx' (x.token (offset' + x.gap.length)) :=
      (Option.isNone_iff_eq_none.mp hstands.2).symm
    have hx := Alike.lexeme x (0 + x.gap.length) (offset' + x.gap.length)
    obtain ⟨hrest, hclosed⟩ := yields_inside
      (Enclosed.of_prev {} ctx' rfl hclause' hx hxs.1 rfl) hxs.2 tail
      (0 + x.gap.length + x.text.length) (offset' + x.gap.length + x.text.length)
    exact ⟨yields_cons_inside (sameBefore_openParen gap offset hcall) rfl
      (fun hnumber => absurd hnumber (bne_iff_ne.mp hstands.1)) hliteral hrest, hclosed⟩

/-- A source between parentheses gives what it gives alone, between parentheses. -/
theorem yields_enclosed (ctx : Context) (gap : List Char) (offset : Nat)
    (hclause : ctx.place.clause = none)
    (hcall : (ctx.prev.any fun f =>
      isFunctionName f (some ((openParen gap).token (offset + gap.length)))) = false)
    {xs : List Lexeme} (hxs : ∀ x ∈ xs, (x.token 0).isKeyword Keyword.opensClause = false)
    (hfirst : ∀ x ∈ xs.head?, standsFirst (x.token 0) = true) (tail : List Char) :
    Yields ctx (place offset (enclosed gap xs tail))
        (lead ctx.prev gap ++ Skeleton.verbatim ['('] ++
          (skeletonFrom {} (place 0 xs) ++ Skeleton.verbatim [')'])) ∧
      ((place offset (enclosed gap xs tail)).foldl Context.after ctx).place.clause = none := by
  obtain ⟨hinside, hclosed⟩ := yields_behind_openParen hclause hcall hxs hfirst tail
    (offset + gap.length + 1)
  exact ⟨yields_lexeme ctx (openParen gap) offset rfl (pieces_openParen ctx gap _) hinside, hclosed⟩

/-- AND with a source in parentheses behind it gives what the source gives alone. -/
theorem yields_and_enclosed {ctx : Context} (hclause : ctx.place.clause = none)
    (hspace : ctx.prev.any (fun p => p.kind != .openParen) = true) {xs : List Lexeme}
    (hxs : ∀ x ∈ xs, (x.token 0).isKeyword Keyword.opensClause = false)
    (hfirst : ∀ x ∈ xs.head?, standsFirst (x.token 0) = true) (tail : List Char) (offset : Nat) :
    Yields ctx (place offset (Keyword.and.lexeme [' '] :: enclosed [' '] xs tail))
      (Skeleton.verbatim " AND (".toList ++
        (skeletonFrom {} (place 0 xs) ++ Skeleton.verbatim [')'])) := by
  let t := (Keyword.and.lexeme [' ']).token (offset + 1)
  have hkeyword : t.keyword? = some .and := keyword?_keyword .and [' '] _
  have hopens : t.isKeyword Keyword.opensClause = false := by
    rw [Token.isKeyword, hkeyword]
    rfl
  have hcall : ∀ next, isFunctionName t next = false := by
    intro next
    rw [isFunctionName, hkeyword]
    simp
  have hlead : lead (ctx.after t).prev [' '] = [.char ' '] := lead_space rfl
  have hback := (yields_enclosed (ctx.after t) [' '] (offset + 1 + Keyword.and.name.text.length)
    (clause_after hclause hopens) (hcall _) hxs hfirst tail).1
  rw [hlead] at hback
  exact yields_keyword .and offset hspace hback

/-! ## Conjunctions of sources -/

/-- A source that reads the same between parentheses: no keyword of it opens a clause, and its
first token, if there is one, is neither a number nor a word for null or a boolean. -/
def Enclosable (source : String) : Prop :=
  ∀ tokens, tokenize source.toList = .ok tokens →
    (∀ t ∈ tokens, t.isKeyword Keyword.opensClause = false) ∧
      ∀ t ∈ tokens.head?, standsFirst t = true

theorem enclosable_iff {source : String} {tokens : List Token}
    (h : tokenize source.toList = .ok tokens) :
    Enclosable source ↔ (tokens.all fun t => !t.isKeyword Keyword.opensClause) = true ∧
      tokens.head?.all standsFirst = true := by
  rw [List.all_eq_true]
  constructor
  · intro hs
    obtain ⟨hclause, hfirst⟩ := hs tokens h
    refine ⟨fun t ht => congrArg _ (hclause t ht), ?_⟩
    cases hhead : tokens.head? with
    | none => rfl
    | some t => exact hfirst t hhead
  · rintro ⟨hclause, hfirst⟩ tokens' h'
    rw [h] at h'
    cases h'
    refine ⟨fun t ht => (Bool.not_eq_true' _).mp (hclause t ht), fun t ht => ?_⟩
    rw [Option.mem_def.mp ht] at hfirst
    exact hfirst

instance (source : String) : Decidable (Enclosable source) :=
  match h : tokenize source.toList with
  | .error _ => .isTrue fun tokens ht => by rw [h] at ht; cases ht
  | .ok _ => decidable_of_iff _ (enclosable_iff h).symm

/-- The lexemes of two sources in parentheses, joined by AND. -/
def conjoinedLexemes (xs : List Lexeme) (tail : List Char) (ys : List Lexeme) (tail' : List Char) :
    List Lexeme :=
  enclosed [] xs tail ++ Keyword.and.lexeme [' '] :: enclosed [' '] ys tail'

theorem print_conjoinedLexemes (xs : List Lexeme) (tail : List Char) (ys : List Lexeme)
    (tail' : List Char) :
    String.ofList (print (conjoinedLexemes xs tail ys tail')) =
      conjoined (String.ofList (print xs ++ tail)) (String.ofList (print ys ++ tail')) := by
  rw [← String.toList_inj, String.toList_ofList, conjoinedLexemes, print_append, print,
    print_enclosed, print_enclosed, conjoined]
  simp [Keyword.lexeme, PlainName.lexeme, text_keyword, Keyword.text]

theorem legible_conjoinedLexemes {xs ys : List Lexeme} {tail tail' : List Char}
    (htail : ∀ c ∈ tail, isBlank c = true) (htail' : ∀ c ∈ tail', isBlank c = true)
    (hx : Legible none tail xs) (hy : Legible none tail' ys) :
    Legible none [] (conjoinedLexemes xs tail ys tail') := by
  refine legible_append.mpr ⟨legible_enclosed blank_nil htail hx ?_, blank_space, ?_,
    legible_enclosed blank_space htail' hy nofun⟩
  · intro c hc
    cases hc
    decide
  · refine scans_keyword .and ?_
    rw [print_enclosed]
    exact boundary_cons.mpr (by decide +kernel)

theorem depthAfter_conjoinedLexemes {xs ys : List Lexeme} (tail tail' : List Char)
    (hx : depthAfter 0 xs = some 0) (hy : depthAfter 0 ys = some 0) :
    depthAfter 0 (conjoinedLexemes xs tail ys tail') = some 0 :=
  (depthAfter_append _ (depthAfter_enclosed hx 0)).trans
    (depthAfter_cons rfl (depthAfter_enclosed hy 0))

/-- Two skeletons in parentheses, joined by AND. -/
def conjoinedSkeleton (ps qs : Skeleton) : Skeleton :=
  Skeleton.verbatim ['('] ++ ps ++ Skeleton.verbatim ") AND (".toList ++ qs ++
    Skeleton.verbatim [')']

theorem skeletonFrom_conjoinedLexemes {xs ys : List Lexeme} (tail tail' : List Char)
    (hx : ∀ x ∈ xs, (x.token 0).isKeyword Keyword.opensClause = false)
    (hy : ∀ y ∈ ys, (y.token 0).isKeyword Keyword.opensClause = false)
    (hx₁ : ∀ x ∈ xs.head?, standsFirst (x.token 0) = true)
    (hy₁ : ∀ y ∈ ys.head?, standsFirst (y.token 0) = true) :
    skeletonFrom {} (place 0 (conjoinedLexemes xs tail ys tail')) =
      conjoinedSkeleton (skeletonFrom {} (place 0 xs)) (skeletonFrom {} (place 0 ys)) := by
  obtain ⟨hfront, hclosed⟩ := yields_enclosed {} [] 0 rfl rfl hx hx₁ tail
  obtain ⟨offset, hprev⟩ := prev_after_place {} (openParen [] :: xs) ⟨tail, .closeParen, [')']⟩ 0
  have hspace : ((place 0 (enclosed [] xs tail)).foldl Context.after {}).prev.any
      (fun p => p.kind != .openParen) = true := by
    rw [enclosed, ← List.cons_append, hprev]
    rfl
  have h := hfront.append (yields_and_enclosed hclosed hspace hy hy₁ tail'
    (0 + (print (enclosed [] xs tail)).length)) []
  rw [← place_append, List.append_nil, lead_nil] at h
  rw [conjoinedLexemes, h, conjoinedSkeleton]
  simp [skeletonFrom, Skeleton.verbatim]

/-- What holds of the tokens of lexemes wherever these stand. -/
theorem forall_mem_of_place {P : Token → Prop} {xs : List Lexeme} {offset : Nat}
    (hP : ∀ (x : Lexeme) (o o' : Nat), P (x.token o) → P (x.token o'))
    (h : ∀ t ∈ place offset xs, P t) : ∀ x ∈ xs, P (x.token 0) := by
  induction xs generalizing offset with
  | nil => exact nofun
  | cons x xs ih =>
    rw [place, List.forall_mem_cons] at h
    exact List.forall_mem_cons.mpr ⟨hP x _ _ h.1, ih h.2⟩

/-- A source that has tokens and reads the same between parentheses is printed from lexemes that do
so. -/
theorem Enclosable.exists_lexemes {source : String} (h : Enclosable source) {tokens : List Token}
    (ht : tokenize source.toList = .ok tokens) :
    ∃ xs tail, (∀ c ∈ tail, isBlank c = true) ∧ Legible none tail xs ∧
      depthAfter 0 xs = some 0 ∧ source = String.ofList (print xs ++ tail) ∧
      tokens = place 0 xs ∧
      (∀ x ∈ xs, (x.token 0).isKeyword Keyword.opensClause = false) ∧
      ∀ x ∈ xs.head?, standsFirst (x.token 0) = true := by
  obtain ⟨hclause, hfirst⟩ := h tokens ht
  obtain ⟨xs, tail, htail, hlegible, hdepth, hsource, rfl⟩ := tokenize_eq_ok_iff.mp ht
  refine ⟨xs, tail, htail, hlegible, hdepth, ?_, rfl, forall_mem_of_place (fun _ _ _ => id) hclause,
    fun x hx => ?_⟩
  · rw [← hsource, String.ofList_toList]
  · cases xs with
    | nil => cases hx
    | cons y xs =>
      cases hx
      have hstands : standsFirst (x.token (0 + x.gap.length)) = true := hfirst _ rfl
      exact hstands

/-- Two sources in parentheses have the skeleton of the two in parentheses. -/
theorem skeleton_conjoined {a b : String} (ha : Enclosable a) (hb : Enclosable b)
    {ps qs : Skeleton} (hps : skeleton .inferred a.toList = .ok ps)
    (hqs : skeleton .inferred b.toList = .ok qs) :
    skeleton .inferred (conjoined a b).toList = .ok (conjoinedSkeleton ps qs) := by
  rw [skeleton_inferred] at hps hqs
  cases hx : tokenize a.toList with
  | error e =>
    rw [hx] at hps
    cases hps
  | ok ts =>
    cases hy : tokenize b.toList with
    | error e =>
      rw [hy] at hqs
      cases hqs
    | ok us =>
      rw [hx] at hps
      rw [hy] at hqs
      cases hps
      cases hqs
      obtain ⟨xs, tail, htail, hlegible, hdepth, rfl, rfl, hclause, hfirst⟩ := ha.exists_lexemes hx
      obtain ⟨ys, tail', htail', hlegible', hdepth', rfl, rfl, hclause', hfirst'⟩ :=
        hb.exists_lexemes hy
      have hprint := skeleton_print blank_nil
        (legible_conjoinedLexemes htail htail' hlegible hlegible')
        (depthAfter_conjoinedLexemes tail tail' hdepth hdepth')
      rw [skeletonFrom_conjoinedLexemes tail tail' hclause hclause' hfirst hfirst',
        List.append_nil] at hprint
      rw [← print_conjoinedLexemes, String.toList_ofList]
      exact hprint

/-- The second part is numbered from where the first one ends. -/
theorem fill_conjoinedSkeleton (start : Int) (ps qs : Skeleton) :
    (conjoinedSkeleton ps qs).fill start =
      (ps.fill start).conjoined (qs.fill (start + ps.holes.length)) := by
  have hassoc : conjoinedSkeleton ps qs = Skeleton.verbatim ['('] ++ (ps ++
      (Skeleton.verbatim ") AND (".toList ++ (qs ++ Skeleton.verbatim [')']))) := by
    simp only [conjoinedSkeleton, List.append_assoc]
  have htext : (conjoinedSkeleton ps qs).text start = '(' :: (ps.text start ++
      (") AND (".toList ++ (qs.text (start + ps.holes.length) ++ [')']))) := by
    rw [hassoc]
    simp [Skeleton.text_append, Skeleton.verbatim, Skeleton.text]
  have hnames : (conjoinedSkeleton ps qs).names start =
      ps.names start ++ qs.names (start + ps.holes.length) := by
    rw [hassoc]
    simp [Skeleton.names_append, Skeleton.verbatim, Skeleton.names]
  have hvalues : (conjoinedSkeleton ps qs).values start =
      ps.values start ++ qs.values (start + ps.holes.length) := by
    rw [hassoc]
    simp [Skeleton.values_append, Skeleton.verbatim, Skeleton.values]
  rw [Skeleton.fill, htext, hnames, hvalues, Compiled.conjoined, conjoined]
  congr 1
  rw [← String.toList_inj]
  simp [Skeleton.fill]

/-- Two sources that compile and read the same between parentheses, each in parentheses and joined
by AND, compile to the conjunction of what they compile to, the second with placeholders that go on
from the first. No placeholder occurs in both. -/
theorem compile_conjoined {a b : String} (ha : Enclosable a) (hb : Enclosable b)
    (ha' : (compile .inferred 1 a).isOk = true) (hb' : (compile .inferred 1 b).isOk = true)
    (start : Int) :
    ∃ c d, compile .inferred start a = .ok c ∧ compile .inferred (start + c.size) b = .ok d ∧
      compile .inferred start (conjoined a b) = .ok (c.conjoined d) ∧
      (c.conjoined d).placeholders.Nodup := by
  have hskeleton : ∀ {source : String}, (compile .inferred 1 source).isOk = true →
      ∃ ps, skeleton .inferred source.toList = .ok ps := by
    intro source h
    unfold compile at h
    cases hs : skeleton .inferred source.toList with
    | error e =>
      rw [hs] at h
      cases h
    | ok ps => exact ⟨ps, rfl⟩
  obtain ⟨ps, hps⟩ := hskeleton ha'
  obtain ⟨qs, hqs⟩ := hskeleton hb'
  have hsize : (ps.fill start).size = ps.holes.length := Skeleton.size_fill start ps
  refine ⟨ps.fill start, qs.fill (start + ps.holes.length), ?_, ?_, ?_, ?_⟩
  · rw [compile, hps]
  · rw [compile, hqs, hsize]
  · rw [compile, skeleton_conjoined ha hb hps hqs, ← fill_conjoinedSkeleton]
  · rw [← fill_conjoinedSkeleton]
    exact Skeleton.nodup_fill _ _

/-! ## Sources that are not blank -/

/-- A lexeme that is read from its text gives pieces. -/
theorem pieces_ne_nil {prev : Option TokenKind} {x : Lexeme} {rest : List Char}
    (h : Scans prev x rest) (ctx : Context) (offset : Nat) (next : Option Token) :
    pieces ctx (x.token offset) next ≠ [] := by
  rcases pieces_cases h.reads ctx offset next with hreplaces | ⟨hverbatim, -⟩
  · obtain ⟨p, ps, hps, -⟩ := hreplaces.hole
    rw [hps]
    exact List.cons_ne_nil _ _
  · obtain ⟨c, cs, htext, -, -⟩ := h
    rw [hverbatim, htext]
    exact List.cons_ne_nil _ _

theorem skeleton_ne_nil_of_inferred {source : List Char} {ps : Skeleton}
    (h : Inferred.skeleton source = .ok ps) (hs : source.all isBlank = false) : ps ≠ [] := by
  unfold Inferred.skeleton at h
  cases ht : tokenize source with
  | error e =>
    rw [ht] at h
    cases h
  | ok tokens =>
    rw [ht] at h
    cases h
    obtain ⟨xs, tail, htail, hlegible, -, hsource, rfl⟩ := tokenize_eq_ok_iff.mp ht
    cases xs with
    | nil =>
      have hblank : source.all isBlank = true := by
        rw [hsource]
        exact List.all_eq_true.mpr htail
      rw [hblank] at hs
      cases hs
    | cons x xs =>
      have hpieces := pieces_ne_nil hlegible.2.1 {} (0 + x.gap.length)
        (place (0 + x.gap.length + x.text.length) xs).head?
      intro hnil
      rw [place, skeletonFrom, List.append_assoc] at hnil
      exact hpieces (List.append_eq_nil_iff.mp (List.append_eq_nil_iff.mp hnil).2).1

/-- Where literals name their types, a literal leaves a hole, and all else is left as it is. -/
theorem all_isBlank_of_tagged {source cs : List Char} {prev : Option Char} {offset : Nat}
    {ps : Skeleton} (h : Tagged.skeletonFrom source prev offset cs = .ok ps)
    (hps : ∀ p ∈ ps, Skeleton.isBlankPiece p = true) : cs.all isBlank = true := by
  fun_induction Tagged.skeletonFrom source prev offset cs generalizing ps with
  | case1 => rfl
  | case2 prev offset c cs hopener ps' hps' ih =>
    cases h
    rw [List.forall_mem_cons] at hps
    rw [List.all_cons, ih hps' hps.2, Bool.and_true]
    exact hps.1
  | case3 => cases h
  | case4 => cases h
  | case5 => cases h
  | case6 prev offset c cs k inner hopener payload rest hp h₁ h₂ pieces hpieces ps' hps' ih =>
    cases h
    obtain ⟨p, qs, rfl, hhole⟩ := (Tagged.replaces_literal hpieces).hole
    obtain ⟨d, hd, -⟩ := Skeleton.exists_char_of_isBlankPiece (hps p List.mem_cons_self)
    exact absurd hd (hhole d)
  | case7 => cases h

theorem skeleton_ne_nil_of_tagged {source : List Char} {ps : Skeleton}
    (h : Tagged.skeleton source = .ok ps) (hs : source.all isBlank = false) : ps ≠ [] := by
  unfold Tagged.skeleton at h
  split at h
  · next qs hqs =>
    cases h
    obtain ⟨front, back, hfront, hback, hends⟩ := exists_trim Skeleton.isBlankPiece qs
    intro (hnil : Text.trim Skeleton.isBlankPiece qs = [])
    have hblank : ∀ p ∈ qs, Skeleton.isBlankPiece p = true := by
      intro p hp
      rw [hends, hnil, List.append_nil] at hp
      exact (List.mem_append.mp hp).elim (hfront p) (hback p)
    rw [all_isBlank_of_tagged hqs hblank] at hs
    cases hs
  · cases h

/-- What compiles is empty if its source is blank, and not otherwise. -/
theorem isEmpty_of_compile {g : Grammar} {source : String} {start : Int} {c : Compiled}
    (h : compile g start source = .ok c) : c.isEmpty = source.toList.all isBlank := by
  unfold compile at h
  cases hskeleton : skeleton g source.toList with
  | error e =>
    rw [hskeleton] at h
    cases h
  | ok ps =>
    rw [hskeleton] at h
    cases h
    unfold skeleton at hskeleton
    split at hskeleton
    · next hblank =>
      cases hskeleton
      exact hblank.symm
    · next hs =>
      have hs' := Bool.not_eq_true _ ▸ hs
      have hne : ps ≠ [] := by
        cases g with
        | inferred => exact skeleton_ne_nil_of_inferred hskeleton hs'
        | tagged => exact skeleton_ne_nil_of_tagged hskeleton hs'
      rw [hs', Compiled.isEmpty_eq_false_iff]
      intro hempty
      obtain ⟨p, qs, rfl⟩ := List.exists_cons_of_ne_nil hne
      exact Skeleton.text_ne_nil start p qs (String.ofList_injective hempty)

end Expression

end ItemStore
