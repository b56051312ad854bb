import ItemStore.Proofs.Expression.Barriers
import ItemStore.Proofs.Expression.Naming
import ItemStore.Proofs.Expression.Numbering
import ItemStore.Proofs.Expression.Tokenization

/-
  What a text literal holds does not change the expression around it, where literal types are
  inferred: with another text between its quotes, correctly escaped, a source compiles to the same
  expression with the same names and values but for the literal's own value
  (`compile_quoted`).

  Two things could tell one text from another. The skeleton of the tokens cannot: what a token
  becomes depends on a few answers of its neighbours (`SameBefore`, `SameBehind`), and these do not
  depend on their places or on the payloads of text literals (`Alike`). The scan in front of the
  literal can, in one case: an angle bracket that nothing but characters of a binary literal
  separates from the quote reaches into the text and is closed there, if the text has a closing
  bracket. So this is left out (`OutOfReach`), and `not_compile_reaching` shows that it has to be.
-/

namespace ItemStore.Expression

open Text Lexeme Inferred

/-! ## Text literals -/

/-- A character of a text as it is written in a literal. -/
def StringUnit.ofChar (c : Char) : StringUnit :=
  if h : (c != '\x27' && c != '\\') = true then .plain c h else .escaped c

theorem StringUnit.char_ofChar (c : Char) : (ofChar c).char = c := by
  unfold ofChar
  split <;> rfl

/-- A text as a literal: in single quotes, with a backslash in front of each quote and each
backslash. -/
def quoted (s : List Char) : List Char :=
  '\x27' :: (s.flatMap (fun c => if c = '\x27' ∨ c = '\\' then ['\\', c] else [c]) ++ ['\x27'])

theorem quoted_eq (s : List Char) :
    quoted s = (Spelling.string (s.map StringUnit.ofChar)).text := by
  have hunit : ∀ c : Char, (if c = '\x27' ∨ c = '\\' then ['\\', c] else [c]) =
      (StringUnit.ofChar c).text := by
    intro c
    by_cases hc : c = '\x27' ∨ c = '\\'
    · have hescaped : ¬(c != '\x27' && c != '\\') = true := by
        rcases hc with rfl | rfl <;> decide
      rw [if_pos hc, StringUnit.ofChar, dif_neg hescaped]
      rfl
    · have hplain : (c != '\x27' && c != '\\') = true := by
        rw [not_or] at hc
        rw [Bool.and_eq_true, bne_iff_ne, bne_iff_ne]
        exact hc
      rw [if_neg hc, StringUnit.ofChar, dif_pos hplain]
      rfl
  simp only [quoted, Spelling.text, hunit, List.flatMap_map]

/-- A quoted text is read as itself, whatever stands in front of it and behind it. -/
theorem scans_quoted (prev : Option TokenKind) (gap s rest : List Char) :
    Scans prev ⟨gap, .string s, quoted s⟩ rest := by
  have h : Scans prev ((Spelling.string (s.map StringUnit.ofChar)).lexeme gap) rest :=
    scans_string gap _ rest
  rw [Spelling.lexeme, Spelling.kind, ← quoted_eq, List.map_map] at h
  have hchars : StringUnit.char ∘ StringUnit.ofChar = id := funext StringUnit.char_ofChar
  rw [hchars, List.map_id] at h
  exact h

/-! ## What neighbours tell -/

/-- Two tokens are the same to their neighbours: they differ in their places only, or they are
text literals. -/
inductive Alike : Token → Token → Prop
  | placed (kind : TokenKind) (text : List Char) (offset offset' : Nat) (spaced : Bool) :
      Alike ⟨kind, text, offset, spaced⟩ ⟨kind, text, offset', spaced⟩
  | texts (payload payload' text text' : List Char) (offset offset' : Nat) (spaced : Bool) :
      Alike ⟨.string payload, text, offset, spaced⟩ ⟨.string payload', text', offset', spaced⟩

theorem Alike.lexeme (x : Lexeme) (offset offset' : Nat) :
    Alike (x.token offset) (x.token offset') :=
  .placed x.kind x.text offset offset' _

theorem Alike.refl (t : Token) : Alike t t :=
  .placed t.kind t.text t.offset t.offset t.spaced

theorem rel_refl (a : Option Token) : Option.Rel Alike a a := by
  cases a with
  | none => exact .none
  | some t => exact .some (.refl t)

theorem any_of_alike {a b : Option Token} (h : Option.Rel Alike a b) {p : Token → Bool}
    (hp : ∀ t u, Alike t u → p t = p u) : a.any p = b.any p := by
  cases h with
  | none => rfl
  | some h => exact hp _ _ h

theorem isFunctionName_of_alike {t u : Token} (h : Alike t u) {next next' : Option Token}
    (hn : Option.Rel Alike next next') : isFunctionName t next = isFunctionName u next' := by
  have hparen := any_of_alike hn (p := fun n => n.kind == .openParen && !n.spaced)
    fun _ _ hn => by cases hn <;> rfl
  unfold isFunctionName
  rw [hparen]
  cases h <;> rfl

namespace Inferred

/-- Two contexts that tell the same. -/
structure Context.Alike (ctx ctx' : Context) : Prop where
  place_eq : ctx.place = ctx'.place
  prev₂ : Option.Rel Expression.Alike ctx.prev₂ ctx'.prev₂
  prev : Option.Rel Expression.Alike ctx.prev ctx'.prev

theorem Context.Alike.refl (ctx : Context) : ctx.Alike ctx :=
  ⟨rfl, rel_refl ctx.prev₂, rel_refl ctx.prev⟩

theorem Context.Alike.after {ctx ctx' : Context} (h : ctx.Alike ctx') {t u : Token}
    (ht : Expression.Alike t u) : (ctx.after t).Alike (ctx'.after u) := by
  refine ⟨?_, h.prev, .some ht⟩
  show ctx.place.after t = ctx'.place.after u
  rw [h.place_eq]
  cases ht <;> rfl

end Inferred

theorem gap_of_alike {prev prev' : Option Token} (h : Option.Rel Alike prev prev') {t u : Token}
    (ht : Alike t u) : gap prev t = gap prev' u := by
  have hparen := any_of_alike h (p := fun p => p.kind != .openParen)
    fun _ _ hp => by cases hp <;> rfl
  unfold Inferred.gap
  rw [hparen]
  cases ht <;> rfl

theorem isSome_of_alike {a b : Option Token} (h : Option.Rel Alike a b) : a.isSome = b.isSome := by
  cases h <;> rfl

theorem literalAt_of_alike {ctx ctx' : Context} (h : Option.Rel Alike ctx.prev ctx'.prev)
    (x : Lexeme) (offset offset' : Nat) :
    literalAt ctx (x.token offset) = literalAt ctx' (x.token offset') := by
  have hvalue := any_of_alike h (p := Token.expectsValue) fun _ _ hp => by cases hp <;> rfl
  unfold literalAt
  rw [hvalue]
  rfl

theorem isFirstArgument_of_alike {ctx ctx' : Context} (h : ctx.Alike ctx') :
    isFirstArgument ctx = isFirstArgument ctx' := by
  have hcall : ctx.prev₂.any (fun f => isFunctionName f ctx.prev) =
      ctx'.prev₂.any fun f => isFunctionName f ctx'.prev :=
    calc ctx.prev₂.any (fun f => isFunctionName f ctx.prev)
        = ctx'.prev₂.any (fun f => isFunctionName f ctx.prev) :=
          any_of_alike h.prev₂ fun _ _ hf => by cases hf <;> rfl
      _ = ctx'.prev₂.any fun f => isFunctionName f ctx'.prev := by
          simp only [isFunctionName_of_alike (Alike.refl _) h.prev]
  unfold isFirstArgument
  rw [hcall]
  exact any_of_alike h.prev fun _ _ hp => by cases hp <;> rfl

/-- What a path asks of the tokens in front of it has the same answers in two contexts. -/
structure SameBefore (ctx ctx' : Context) : Prop where
  operand_eq : ctx.prev.any (Token.isKeyword Keyword.takesOperands) =
    ctx'.prev.any (Token.isKeyword Keyword.takesOperands)
  comma_eq : (ctx.prev.any fun p => p.kind == .comma && separatesOperands ctx.place) =
    ctx'.prev.any fun p => p.kind == .comma && separatesOperands ctx'.place
  firstArgument_eq : isFirstArgument ctx = isFirstArgument ctx'

/-- What a path asks of the token behind it has the same answers for two. -/
structure SameBehind (next next' : Option Token) : Prop where
  paren_eq : (next.any fun n => n.kind == .openParen && !n.spaced) =
    next'.any fun n => n.kind == .openParen && !n.spaced
  range_eq : next.any (Token.isKeyword Keyword.isRange) =
    next'.any (Token.isKeyword Keyword.isRange)
  operator_eq : (next.any fun n => n.kind == .operator) = next'.any fun n => n.kind == .operator

theorem sameBehind_of_alike {next next' : Option Token} (h : Option.Rel Alike next next') :
    SameBehind next next' where
  paren_eq := any_of_alike h fun _ _ h => by cases h <;> rfl
  range_eq := any_of_alike h fun _ _ h => by cases h <;> rfl
  operator_eq := any_of_alike h fun _ _ h => by cases h <;> rfl

theorem isNamePosition_of_same {ctx ctx' : Context} (h : SameBefore ctx ctx') (x : Lexeme)
    (offset offset' : Nat) {next next' : Option Token} (hn : SameBehind next next') :
    isNamePosition ctx (x.token offset) next = isNamePosition ctx' (x.token offset') next' := by
  have hcall : isFunctionName (x.token offset) next = isFunctionName (x.token offset') next' := by
    unfold isFunctionName
    rw [hn.paren_eq]
    rfl
  unfold isNamePosition
  rw [hcall, h.operand_eq, h.comma_eq, h.firstArgument_eq, hn.range_eq, hn.operator_eq]
  rfl

/-- A lexeme gives the same where its neighbours tell the same. -/
theorem pieces_of_same {ctx ctx' : Context} (h : SameBefore ctx ctx') {x : Lexeme}
    {offset offset' : Nat} {next next' : Option Token} (hn : SameBehind next next')
    (hnumber : x.kind = .number → ctx.prev.isSome = ctx'.prev.isSome)
    (hliteral : literalAt ctx (x.token offset) = literalAt ctx' (x.token offset')) :
    pieces ctx (x.token offset) next = pieces ctx' (x.token offset') next' := by
  have hpath : pathPieces ctx (x.token offset) next = pathPieces ctx' (x.token offset') next' := by
    unfold pathPieces
    rw [hliteral, isNamePosition_of_same h x offset offset' hn]
    rfl
  obtain ⟨gap, kind, text⟩ := x
  cases kind with
  | number =>
    show (if ctx.prev.isSome then _ else _) = _
    rw [hnumber rfl]
    rfl
  | path segments => exact hpath
  | _ => rfl

theorem Inferred.Context.Alike.same {ctx ctx' : Context} (h : ctx.Alike ctx') :
    SameBefore ctx ctx' where
  operand_eq := any_of_alike h.prev fun _ _ hp => by cases hp <;> rfl
  comma_eq := by
    rw [h.place_eq]
    exact any_of_alike h.prev fun _ _ hp => by cases hp <;> rfl
  firstArgument_eq := isFirstArgument_of_alike h

/-- A token gives the same between neighbours that are alike. -/
theorem pieces_of_alike {ctx ctx' : Context} (h : ctx.Alike ctx') (x : Lexeme)
    (offset offset' : Nat) {next next' : Option Token} (hn : Option.Rel Alike next next') :
    pieces ctx (x.token offset) next = pieces ctx' (x.token offset') next' :=
  pieces_of_same h.same (sameBehind_of_alike hn) (fun _ => isSome_of_alike h.prev)
    (literalAt_of_alike h.prev x offset offset')

/-! ## The hole of a text literal -/

theorem head?_place (xs : List Lexeme) (offset offset' : Nat) :
    Option.Rel Alike (place offset xs).head? (place offset' xs).head? := by
  cases xs with
  | nil => exact .none
  | cons x xs => exact .some (.lexeme x _ _)

/-- The same lexemes give the same in contexts that are alike, wherever they start. -/
theorem skeletonFrom_of_alike {ctx ctx' : Context} (h : ctx.Alike ctx') (xs : List Lexeme)
    (offset offset' : Nat) :
    skeletonFrom ctx (place offset xs) = skeletonFrom ctx' (place offset' xs) := by
  induction xs generalizing ctx ctx' offset offset' with
  | nil => rfl
  | cons x xs ih =>
    have hx := Alike.lexeme x (offset + x.gap.length) (offset' + x.gap.length)
    rw [place, place, skeletonFrom, skeletonFrom, gap_of_alike h.prev hx,
      pieces_of_alike h x _ _ (head?_place xs _ _), ih (h.after hx)]

/-- Around a text literal the skeleton is the same whatever the literal holds. -/
theorem exists_hole (ctx : Context) (offset : Nat) (ys : List Lexeme) (gap : List Char)
    (zs : List Lexeme) : ∃ ps qs : Skeleton, ∀ payload text,
      skeletonFrom ctx (place offset (ys ++ ⟨gap, .string payload, text⟩ :: zs)) =
        ps ++ .value (.string payload) :: qs := by
  have halike : ∀ payload text o o', Alike (Lexeme.token ⟨gap, .string payload, text⟩ o)
      (Lexeme.token ⟨gap, .string [], []⟩ o') := fun _ _ _ _ => .texts _ _ _ _ _ _ _
  induction ys generalizing ctx offset with
  | nil =>
    refine ⟨Inferred.gap ctx.prev (Lexeme.token ⟨gap, .string [], []⟩ 0),
      skeletonFrom (ctx.after (Lexeme.token ⟨gap, .string [], []⟩ 0)) (place 0 zs),
      fun payload text => ?_⟩
    have hx := halike payload text (offset + gap.length) 0
    have hrest := skeletonFrom_of_alike ((Context.Alike.refl ctx).after hx) zs
      (offset + gap.length + text.length) 0
    show Inferred.gap ctx.prev _ ++ [.value (.string payload)] ++ skeletonFrom _ _ = _
    rw [gap_of_alike (rel_refl ctx.prev) hx, ← hrest, List.append_assoc]
    rfl
  | cons y ys ih =>
    obtain ⟨ps, qs, h⟩ := ih (ctx.after (y.token (offset + y.gap.length)))
      (offset + y.gap.length + y.text.length)
    refine ⟨Inferred.gap ctx.prev (y.token (offset + y.gap.length)) ++
      pieces ctx (y.token (offset + y.gap.length))
        (place 0 (ys ++ [⟨gap, .string [], []⟩])).head? ++ ps, qs, fun payload text => ?_⟩
    have hnext : Option.Rel Alike
        (place (offset + y.gap.length + y.text.length)
          (ys ++ ⟨gap, .string payload, text⟩ :: zs)).head?
        (place 0 (ys ++ [⟨gap, .string [], []⟩])).head? := by
      cases ys with
      | nil => exact .some (halike payload text _ _)
      | cons y' ys' => exact .some (.lexeme y' _ _)
    rw [List.cons_append, place, skeletonFrom, h,
      pieces_of_alike (.refl ctx) y _ (offset + y.gap.length) hnext]
    simp only [List.append_assoc]

/-! ## Reading in front of a text literal and behind it -/

/-- No angle bracket that starts one of the lexemes reaches what stands behind them and the gap: a
character that no binary literal holds stands between. -/
def OutOfReach (gap : List Char) : List Lexeme → Prop
  | [] => True
  | y :: ys =>
    (y.text.head? = some '<' → ∃ c ∈ y.text.tail ++ (print ys ++ gap), isBinaryChar c = false) ∧
      OutOfReach gap ys

/-- Lexemes in front of a barrier stay legible when another stands there. -/
theorem legible_of_barrier {z z' : List Char} (hz : Barrier z) (hz' : Barrier z')
    {gap : List Char} {prev : Option TokenKind} {ys : List Lexeme} (hr : OutOfReach gap ys)
    (h : Legible prev (gap ++ z) ys) : Legible prev (gap ++ z') ys := by
  induction ys generalizing prev with
  | nil => trivial
  | cons y ys ih =>
    obtain ⟨hgap, ⟨c, cs, htext, hblank, hscan⟩, hrest⟩ := h
    obtain ⟨hreach, hrs⟩ := hr
    refine ⟨hgap, ⟨c, cs, htext, hblank, ?_⟩, ih hrs hrest⟩
    have hc : c = '<' → ∃ d ∈ cs ++ (print ys ++ gap), isBinaryChar d = false := by
      rintro rfl
      rw [htext] at hreach
      exact hreach rfl
    simp only [← List.append_assoc] at hscan ⊢
    rw [scanToken_append hz (List.append_assoc _ _ _ ▸ hc)] at hscan
    rw [scanToken_append hz' (List.append_assoc _ _ _ ▸ hc)]
    exact hscan

/-- What is legible behind a text literal is so behind any other. -/
theorem legible_behind_text {payload payload' rest : List Char} {zs : List Lexeme}
    (h : Legible (some (.string payload)) rest zs) : Legible (some (.string payload')) rest zs := by
  cases zs with
  | nil => trivial
  | cons x zs => exact h

/-! ## Tokens and their lexemes -/

theorem place_eq_append {xs : List Lexeme} {offset : Nat} {ts us : List Token}
    (h : place offset xs = ts ++ us) : ∃ ys zs, xs = ys ++ zs ∧ ts = place offset ys ∧
      us = place (offset + (print ys).length) zs := by
  induction ts generalizing xs offset with
  | nil => exact ⟨[], xs, rfl, rfl, h.symm⟩
  | cons t ts ih =>
    cases xs with
    | nil => cases h
    | cons x xs =>
      obtain ⟨rfl, hrest⟩ := List.cons.inj h
      obtain ⟨ys, zs, rfl, rfl, rfl⟩ := ih hrest
      refine ⟨x :: ys, zs, rfl, rfl, ?_⟩
      rw [print, List.length_append, List.length_append]
      simp only [Nat.add_assoc]

/-- A token of a source is a lexeme in its place, between the text in front of it and the text
behind it. -/
theorem exists_around {source : List Char} {before after : List Token} {t : Token}
    (h : tokenize source = .ok (before ++ t :: after)) :
    ∃ ys x zs tail, (∀ c ∈ tail, isBlank c = true) ∧ Legible none tail (ys ++ x :: zs) ∧
      depthAfter 0 (ys ++ x :: zs) = some 0 ∧ before = place 0 ys ∧ t.kind = x.kind ∧
      source = source.take t.offset ++ (x.text ++ (print zs ++ tail)) ∧
      source.take t.offset = print ys ++ x.gap ∧
      source.drop (t.offset + t.text.length) = print zs ++ tail := by
  obtain ⟨xs, tail, htail, hlegible, hdepth, hsource, hplace⟩ := tokenize_eq_ok_iff.mp h
  obtain ⟨ys, xs', rfl, rfl, hrest⟩ := place_eq_append hplace.symm
  cases xs' with
  | nil => cases hrest
  | cons x zs =>
    obtain ⟨rfl, rfl⟩ := List.cons.inj hrest
    have hoffset : (x.token (0 + (print ys).length + x.gap.length)).offset =
        (print ys ++ x.gap).length := by
      simp [Lexeme.token]
    have hsplit : source = print ys ++ x.gap ++ (x.text ++ (print zs ++ tail)) := by
      rw [hsource, print_append, print]
      simp only [List.append_assoc]
    have htake : source.take (print ys ++ x.gap).length = print ys ++ x.gap := by
      rw [hsplit, List.take_left]
    have hdrop : source.drop ((print ys ++ x.gap).length + x.text.length) = print zs ++ tail := by
      rw [hsplit, ← List.append_assoc, ← List.length_append, List.drop_left]
    refine ⟨ys, x, zs, tail, htail, hlegible, hdepth, rfl, rfl, ?_, ?_, ?_⟩
    · rw [hoffset, htake]
      exact hsplit
    · rw [hoffset, htake]
    · rw [hoffset]
      exact hdrop

/-- What is out of reach in the source is out of reach for the lexemes. -/
theorem outOfReach_of_tokens {gap : List Char} {ys : List Lexeme} (front : List Char)
    (h : ∀ u ∈ place front.length ys, u.text.head? = some '<' →
      ∃ c ∈ (front ++ print ys ++ gap).drop (u.offset + 1), isBinaryChar c = false) :
    OutOfReach gap ys := by
  induction ys generalizing front with
  | nil => trivial
  | cons y ys ih =>
    rw [place, List.forall_mem_cons] at h
    obtain ⟨hfirst, hrest⟩ := h
    constructor
    · intro hhead
      obtain ⟨cs, htext⟩ := List.head?_eq_some_iff.mp hhead
      have hsource : front ++ print (y :: ys) ++ gap =
          (front ++ y.gap ++ ['<']) ++ (y.text.tail ++ (print ys ++ gap)) := by
        rw [print, htext]
        simp
      have hlength : (y.token (front.length + y.gap.length)).offset + 1 =
          (front ++ y.gap ++ ['<']).length := by
        simp [Lexeme.token, Nat.add_assoc]
      have hreach := hfirst hhead
      rw [hsource, hlength, List.drop_left] at hreach
      exact hreach
    · refine ih (front ++ y.gap ++ y.text) fun u hu hhead => ?_
      have hlength : (front ++ y.gap ++ y.text).length =
          front.length + y.gap.length + y.text.length := by
        rw [List.length_append, List.length_append]
      rw [hlength] at hu
      have hreach := hrest u hu hhead
      rw [print] at hreach
      simpa only [List.append_assoc] using hreach

/-! ## Another text in a literal -/

/-- Lexemes with another text in a literal that is out of reach are legible too. -/
theorem legible_quoted {ys zs : List Lexeme} {gap text payload tail : List Char}
    (h : Legible none tail (ys ++ ⟨gap, .string payload, text⟩ :: zs)) (hr : OutOfReach gap ys)
    (s : List Char) : Legible none tail (ys ++ ⟨gap, .string s, quoted s⟩ :: zs) := by
  obtain ⟨hys, hgap, hscan, hzs⟩ := legible_append.mp h
  obtain ⟨units, -, htext⟩ := hscan.reads
  have htext : text = '\x27' :: (units.flatMap StringUnit.text ++ ['\x27']) := htext
  have hz : Barrier (text ++ (print zs ++ tail)) := by
    rw [htext]
    exact barrier_cons.mpr (by decide)
  have hz' : Barrier (quoted s ++ (print zs ++ tail)) := barrier_cons.mpr (by decide)
  rw [print, List.append_assoc, List.append_assoc] at hys
  refine legible_append.mpr ⟨?_, hgap, scans_quoted _ gap s _, legible_behind_text hzs⟩
  rw [print, List.append_assoc, List.append_assoc]
  exact legible_of_barrier hz hz' hr hys

/-- A value decides its own binding in what is compiled, and nothing else. -/
theorem exists_fill (start : Int) (ps qs : Skeleton) :
    ∃ expression names vs placeholder ws, (vs.map (·.1) ++ placeholder :: ws.map (·.1)).Nodup ∧
      ∀ l, Skeleton.fill start (ps ++ .value l :: qs) =
        ⟨expression, names, vs ++ (placeholder, l.bound) :: ws⟩ := by
  let index := start + ps.holes.length
  have hnodup := Skeleton.nodup_values start (ps ++ .value .null :: qs)
  rw [Skeleton.values_append, List.map_append] at hnodup
  refine ⟨String.ofList (ps.text start ++ (Skeleton.valuePlaceholder index ++ qs.text (index + 1))),
    ps.names start ++ qs.names (index + 1), ps.values start,
    String.ofList (Skeleton.valuePlaceholder index), qs.values (index + 1), hnodup, fun l => ?_⟩
  rw [Skeleton.fill, Skeleton.text_append, Skeleton.names_append, Skeleton.values_append,
    ← l.wire_eq_bound]
  rfl

/-- Legible lexemes around a text literal compile to one expression, with one binding that the
literal decides. -/
theorem exists_compile_text {ys zs : List Lexeme} {gap tail : List Char}
    (htail : ∀ c ∈ tail, isBlank c = true) (hys : ∀ s text,
      depthAfter 0 (ys ++ ⟨gap, .string s, text⟩ :: zs) = some 0) (start : Int) :
    ∃ expression names vs placeholder ws, (vs.map (·.1) ++ placeholder :: ws.map (·.1)).Nodup ∧
      ∀ s text, Legible none tail (ys ++ ⟨gap, .string s, text⟩ :: zs) →
        compile .inferred start (String.ofList (print ys ++ gap ++ text ++ (print zs ++ tail))) =
          .ok ⟨expression, names,
            vs ++ (placeholder, .map [(.text "S", .text (String.ofList s))]) :: ws⟩ := by
  obtain ⟨ps, qs, hhole⟩ := exists_hole {} 0 ys gap zs
  obtain ⟨expression, names, vs, placeholder, ws, hnodup, hfill⟩ := exists_fill start ps qs
  refine ⟨expression, names, vs, placeholder, ws, hnodup, fun s text hl => ?_⟩
  have h := skeleton_print htail hl (hys s text)
  rw [print_append, print, hhole] at h
  simp only [List.append_assoc] at h ⊢
  rw [compile, String.toList_ofList, h]
  exact congrArg _ (hfill (.string s))

/-- With another text in one of its literals, correctly escaped, a source compiles to the same
expression, with the same names and the same values but for the literal's own value. No angle
bracket in front of the literal may reach it. -/
theorem compile_quoted {source payload : List Char} {before after : List Token} {t : Token}
    (htokens : tokenize source = .ok (before ++ t :: after)) (hkind : t.kind = .string payload)
    (hreach : ∀ u ∈ before, u.text.head? = some '<' →
      ∃ c ∈ (source.take t.offset).drop (u.offset + 1), isBinaryChar c = false) (start : Int) :
    ∃ expression names vs placeholder ws,
      (vs.map (·.1) ++ placeholder :: ws.map (·.1)).Nodup ∧
      compile .inferred start (String.ofList source) = .ok ⟨expression, names,
        vs ++ (placeholder, .map [(.text "S", .text (String.ofList payload))]) :: ws⟩ ∧
      ∀ s : List Char,
        compile .inferred start (String.ofList
          (source.take t.offset ++ quoted s ++ source.drop (t.offset + t.text.length))) =
          .ok ⟨expression, names,
            vs ++ (placeholder, .map [(.text "S", .text (String.ofList s))]) :: ws⟩ := by
  obtain ⟨ys, ⟨gap, kind, text⟩, zs, tail, htail, hlegible, hdepth, rfl, hx, hsource, htake,
    hdrop⟩ := exists_around htokens
  obtain rfl : .string payload = kind := hkind.symm.trans hx
  have hr : OutOfReach gap ys := by
    refine outOfReach_of_tokens [] fun u hu hhead => ?_
    have h := hreach u hu hhead
    rw [htake] at h
    exact h
  have hd : ∀ s text, depthAfter 0 (ys ++ ⟨gap, .string s, text⟩ :: zs) = some 0 := by
    intro s text
    rw [← hdepth, depthAfter, depthAfter, List.foldlM_append, List.foldlM_append]
    rfl
  obtain ⟨expression, names, vs, placeholder, ws, hnodup, hcompile⟩ :=
    exists_compile_text htail hd start
  refine ⟨expression, names, vs, placeholder, ws, hnodup, ?_, fun s => ?_⟩
  · rw [hsource, htake, ← List.append_assoc]
    exact hcompile payload text hlegible
  · rw [htake, hdrop]
    exact hcompile s (quoted s) (legible_quoted hlegible hr s)

/-- That no angle bracket reaches a place can be checked token by token. -/
theorem forall_outOfReach {source : List Char} {before : List Token} {offset : Nat}
    (h : before.all (fun u => u.text.head? != some '<' ||
      ((source.take offset).drop (u.offset + 1)).any fun c => !isBinaryChar c) = true) :
    ∀ u ∈ before, u.text.head? = some '<' →
      ∃ c ∈ (source.take offset).drop (u.offset + 1), isBinaryChar c = false := by
  intro u hu hhead
  have hany := List.all_eq_true.mp h u hu
  rw [hhead, bne_self_eq_false, Bool.false_or] at hany
  obtain ⟨c, hc, hchar⟩ := List.any_eq_true.mp hany
  exact ⟨c, hc, Bool.not_eq_true' _ ▸ hchar⟩

/-- A text with a bracket, a quote and a placeholder, behind two comparisons that do not reach
it. -/
theorem compile_quoted_comparisons :
    ∃ expression names vs placeholder ws,
      compile .inferred 1 "a <= 'x' AND b < 'y'" = .ok
        ⟨expression, names, vs ++ (placeholder, .map [(.text "S", .text "y")]) :: ws⟩ ∧
      compile .inferred 1 "a <= 'x' AND b < '>\\' #V1'" = .ok
        ⟨expression, names, vs ++ (placeholder, .map [(.text "S", .text ">' #V1")]) :: ws⟩ := by
  have htokens : tokenize "a <= 'x' AND b < 'y'".toList = .ok
      ([⟨.path [⟨['a'], [], false⟩], ['a'], 0, false⟩, ⟨.operator, "<=".toList, 2, true⟩,
        ⟨.string ['x'], "'x'".toList, 5, true⟩,
        ⟨.path [⟨"AND".toList, [], false⟩], "AND".toList, 9, true⟩,
        ⟨.path [⟨['b'], [], false⟩], ['b'], 13, true⟩, ⟨.operator, ['<'], 15, true⟩] ++
        ⟨.string ['y'], "'y'".toList, 17, true⟩ :: []) :=
    eq_ok_of_toOption (by decide +kernel)
  obtain ⟨expression, names, vs, placeholder, ws, -, hsource, hquoted⟩ :=
    compile_quoted htokens rfl (forall_outOfReach (by decide +kernel)) 1
  exact ⟨expression, names, vs, placeholder, ws, hsource, hquoted ">' #V1".toList⟩

/-- An angle bracket that reaches the literal is closed in it: with a closing bracket for its text
the source does not compile. -/
theorem not_compile_reaching :
    tokenize "a <'x'".toList = .ok ([⟨.path [⟨['a'], [], false⟩], ['a'], 0, false⟩,
        ⟨.operator, ['<'], 2, true⟩] ++ ⟨.string ['x'], quoted ['x'], 3, false⟩ :: []) ∧
      (compile .inferred 1 "a <'x'").isOk = true ∧
      (compile .inferred 1 (String.ofList ("a <".toList ++ quoted ['>']))).isOk = false :=
  ⟨eq_ok_of_toOption (by decide +kernel), by decide +kernel, by decide +kernel⟩

end ItemStore.Expression
