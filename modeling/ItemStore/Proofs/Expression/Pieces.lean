import ItemStore.Proofs.Expression.Closed
import ItemStore.Proofs.Expression.Opaque

/-
  What a token becomes and where it stands in what is sent, where literal types are inferred.

  `Stands` says that a compiled expression has certain pieces in the place of one token: behind what
  the tokens before it give and in front of what those behind it give, with their placeholders
  numbered on from those before. Every token has such a place, and its pieces are those that the
  grammar gives it between its neighbours (`stands_of_pieces`).

  A token that is neither a parenthesis nor a comma is sent without white space, parentheses, commas
  and quotes (`inked_pieces`): either it has none, or a hole stands for it. The placeholders of
  holes have none either (`isInk_of_mem_text`). So what is quoted in a source is bound and never
  sent, and no quote is (`compile_unquoted`).
-/

namespace ItemStore.Expression

open Text Lexeme Skeleton

/-! ## The place of a token -/

namespace Inferred

/-- The skeleton of tokens in front of another token, or of the end. -/
def skeletonTo (ctx : Context) (next : Option Token) : List Token → Skeleton
  | [] => []
  | t :: ts =>
    gap ctx.prev t ++ pieces ctx t (ts.head?.or next) ++ skeletonTo (ctx.after t) next ts

theorem skeletonFrom_append (ctx : Context) (ts us : List Token) :
    skeletonFrom ctx (ts ++ us) =
      skeletonTo ctx us.head? ts ++ skeletonFrom (ts.foldl Context.after ctx) us := by
  induction ts generalizing ctx with
  | nil => rfl
  | cons t ts ih =>
    rw [List.cons_append, skeletonFrom, ih, List.head?_append, skeletonTo, List.foldl_cons]
    simp only [List.append_assoc]

/-- The context behind the tokens that start a source. -/
def contextAfter (ts : List Token) : Context :=
  ts.foldl Context.after {}

theorem prev_contextAfter (ts : List Token) : (contextAfter ts).prev = ts.getLast? := by
  cases List.eq_nil_or_concat ts with
  | inl h =>
    rw [h]
    rfl
  | inr h =>
    obtain ⟨us, u, rfl⟩ := h
    rw [contextAfter, List.concat_eq_append, List.foldl_append, List.getLast?_concat]
    rfl

/-- What is sent in front of a token: the skeleton of the tokens before it, and the space. -/
def front (before : List Token) (t : Token) : Skeleton :=
  skeletonTo {} (some t) before ++ gap before.getLast? t

/-- What is sent behind a token. -/
def back (before : List Token) (t : Token) (after : List Token) : Skeleton :=
  skeletonFrom ((contextAfter before).after t) after

theorem skeletonFrom_around (before : List Token) (t : Token) (after : List Token) :
    skeletonFrom {} (before ++ t :: after) =
      front before t ++ pieces (contextAfter before) t after.head? ++ back before t after := by
  rw [skeletonFrom_append, skeletonFrom, ← contextAfter, prev_contextAfter]
  simp only [front, back, List.head?_cons, List.append_assoc]

/-- The number of the first hole in the place of a token: as many are in front of it from the start
on. -/
def indexAt (start : Int) (before : List Token) (t : Token) : Int :=
  start + (front before t).holes.length

/-- A compiled expression has certain pieces in the place of a token; their placeholders are
numbered on from those in front. -/
structure Stands (start : Int) (before : List Token) (t : Token) (after : List Token)
    (ps : Skeleton) (c : Compiled) : Prop where
  expression_eq : c.expression.toList =
    sent start (front before t) ++ sent (indexAt start before t) ps ++
      sent (indexAt start before t + ps.holes.length) (back before t after)
  names_eq : c.names =
    boundNames start (front before t) ++ boundNames (indexAt start before t) ps ++
      boundNames (indexAt start before t + ps.holes.length) (back before t after)
  values_eq : c.values =
    boundValues start (front before t) ++ boundValues (indexAt start before t) ps ++
      boundValues (indexAt start before t + ps.holes.length) (back before t after)

/-- A literal in the place of a token is bound to its value. -/
theorem Stands.value_mem {start : Int} {before after : List Token} {t : Token} {l : Literal}
    {c : Compiled} (h : Stands start before t after [.value l] c) :
    (String.ofList (':' :: 'V' :: Number.intText (indexAt start before t)), l.bound) ∈
      c.values := by
  have hhole : boundValues (indexAt start before t) [.value l] =
      [(String.ofList (':' :: 'V' :: Number.intText (indexAt start before t)), l.bound)] := by
    rw [← values_eq_boundValues, values, values, l.wire_eq_bound]
    rfl
  rw [h.values_eq, hhole]
  exact List.mem_append_left _ (List.mem_append_right _ (List.mem_singleton_self _))

theorem stands_fill (start : Int) (before : List Token) (t : Token) (after : List Token)
    (ps : Skeleton) :
    Stands start before t after ps ((front before t ++ ps ++ back before t after).fill start) where
  expression_eq := by
    rw [fill, String.toList_ofList, List.append_assoc, text_append, text_append, List.append_assoc]
    simp only [text_eq_sent, indexAt]
  names_eq := by
    rw [fill, List.append_assoc, names_append, names_append, List.append_assoc]
    simp only [names_eq_boundNames, indexAt]
  values_eq := by
    rw [fill, List.append_assoc, values_append, values_append, List.append_assoc]
    simp only [values_eq_boundValues, indexAt]

/-- Every token has its place in what is sent, with the pieces that the grammar gives it between its
neighbours. -/
theorem stands_of_pieces {tokens before after : List Token} {t : Token} {ps : Skeleton}
    (htokens : tokens = before ++ t :: after)
    (hps : pieces (contextAfter before) t after.head? = ps) (start : Int) :
    Stands start before t after ps ((skeletonFrom {} tokens).fill start) := by
  rw [htokens, skeletonFrom_around, hps]
  exact stands_fill start before t after ps

theorem compile_of_tokens {source : String} {tokens : List Token}
    (h : tokenize source.toList = .ok tokens) (start : Int) :
    compile .inferred start source = .ok ((skeletonFrom {} tokens).fill start) := by
  rw [compile, skeleton_inferred, h]
  rfl

/-- What is compiled is compiled from tokens. -/
theorem exists_tokens {source : String} {start : Int} {c : Compiled}
    (h : compile .inferred start source = .ok c) : ∃ tokens,
      tokenize source.toList = .ok tokens ∧ c = (skeletonFrom {} tokens).fill start := by
  cases htokens : tokenize source.toList with
  | error e =>
    rw [compile, skeleton_inferred, htokens] at h
    cases h
  | ok tokens =>
    rw [compile_of_tokens htokens] at h
    exact ⟨tokens, rfl, (Except.ok.inj h).symm⟩

end Inferred

/-! ## Characters that are sent -/

/-- A character that is no white space, no parenthesis, no comma and no quote. -/
def isInk (c : Char) : Bool :=
  !isBarrier c && !isNameQuote c

theorem isInk_eq_true_iff {c : Char} :
    isInk c = true ↔ isBarrier c = false ∧ isNameQuote c = false := by
  rw [isInk, Bool.and_eq_true, Bool.not_eq_true', Bool.not_eq_true']

theorem isInk_of_isPathChar {c : Char} (h : isPathChar c = true) : isInk c = true := by
  rw [isPathChar, Bool.or_eq_true, beq_iff_eq] at h
  rcases h with h | rfl
  · refine isInk_eq_true_iff.mpr ⟨?_, ?_⟩
    · rw [← Bool.not_eq_true]
      intro hbarrier
      rw [continuesPath_of_isBarrier hbarrier] at h
      cases h
    · rw [isNameQuote, beq_eq_false_iff_ne.mpr (ne_of_class h (by decide +kernel)),
        beq_eq_false_iff_ne.mpr (ne_of_class h (by decide +kernel))]
      rfl
  · decide +kernel

/-- A skeleton has no white space, no parentheses, no commas and no quotes outside its holes. -/
def Inked (ps : Skeleton) : Prop :=
  ∀ c, Piece.char c ∈ ps → isInk c = true

theorem inked_value (l : Literal) : Inked [.value l] :=
  fun _ h => nomatch List.mem_singleton.mp h

theorem inked_verbatim {cs : List Char} (h : ∀ c ∈ cs, isInk c = true) : Inked (verbatim cs) := by
  intro c hc
  obtain ⟨d, hd, he⟩ := List.mem_map.mp hc
  rw [← Piece.char.inj he]
  exact h d hd

theorem PathText.inked {cs : List Char} (h : PathText cs) : Inked (verbatim cs) :=
  inked_verbatim fun c hc => isInk_of_isPathChar (h c hc)

theorem inked_ofSegment (s : Step) : Inked (ofSegment s.segment) := by
  intro c hc
  rcases List.mem_cons.mp hc with hc | hc
  · cases hc
  · exact (pathText_indexes s.indexes).inked c hc

theorem inked_ofPath (s : Step) (ss : List Step) :
    Inked (ofPath (s.segment :: ss.map Step.segment)) := by
  induction ss generalizing s with
  | nil => exact inked_ofSegment s
  | cons t ts ih =>
    intro c hc
    rcases List.mem_append.mp (show Piece.char c ∈ ofSegment s.segment ++
      .char '.' :: ofPath (t.segment :: ts.map Step.segment) from hc) with hc | hc
    · exact inked_ofSegment s c hc
    · rcases List.mem_cons.mp hc with hc | hc
      · rw [Piece.char.inj hc]
        decide +kernel
      · exact ih t c hc

/-- What is read as no other token is neither a quote nor a sign that has a kind of its own. -/
theorem isInk_of_other {prev : Option Token} {c : Char} {cs rest : List Char}
    (hc : isBlank c = false) (h : scanToken prev c cs = .ok (.other, rest)) : isInk c = true := by
  have hquote : c ≠ '\x27' := by
    rintro rfl
    obtain ⟨payload, -, hkind⟩ := scanToken_quote.mp h
    cases hkind
  rw [scanToken, if_neg hquote] at h
  split at h
  · cases h
  split at h
  · cases h
  split at h
  · cases h
  have hsign : ¬(c = '(' ∨ c = ')' ∨ c = ',') := by
    rintro (rfl | rfl | rfl)
    all_goals cases h
  cases hp : scanPlaceholder (c :: cs) with
  | some rest' =>
    rw [scanWordOrSign_placeholder hsign hp] at h
    cases h
  | none =>
    cases hs : startsSegment (c :: cs) with
    | true =>
      obtain ⟨segments, -, hkind⟩ := (scanWordOrSign_path hsign hp hs).mp h
      cases hkind
    | false =>
      rw [not_or, not_or] at hsign
      refine isInk_eq_true_iff.mpr ⟨?_, (Bool.or_eq_false_iff.mp hs).1⟩
      rw [isBarrier, isBoundary, hc, beq_eq_false_iff_ne.mpr hsign.1,
        beq_eq_false_iff_ne.mpr hsign.2.1, beq_eq_false_iff_ne.mpr hsign.2.2,
        beq_eq_false_iff_ne.mpr hquote]
      rfl

/-- The kinds of parentheses and commas, with their characters. -/
def signs : List (TokenKind × Char) :=
  [(.openParen, '('), (.closeParen, ')'), (.comma, ',')]

/-- A parenthesis or a comma is sent as it is; any other token is sent without white space,
parentheses, commas and quotes. -/
theorem inked_pieces {prev : Option TokenKind} {x : Lexeme} {rest : List Char}
    (h : Scans prev x rest) (ctx : Inferred.Context) (offset : Nat) (next : Option Token) :
    Inked (Inferred.pieces ctx (x.token offset) next) ∨
      ∃ s ∈ signs, x.kind = s.1 ∧ Inferred.pieces ctx (x.token offset) next = verbatim [s.2] := by
  have hreads := h.reads
  obtain ⟨gap, kind, text⟩ := x
  cases kind with
  | string payload => exact .inl (inked_value _)
  | binary payload => exact .inl (inked_value _)
  | number =>
    obtain ⟨n, rfl⟩ : ∃ n : Numeral, text = n.text := hreads
    rw [Inferred.pieces]
    dsimp only [Lexeme.token]
    split
    · exact .inl (inked_value _)
    · exact .inl (pathText_numeral n).inked
  | operator =>
    have hoperators : operators.all (fun op => op.all isInk) = true := by decide +kernel
    have htext := List.all_eq_true.mp (List.all_eq_true.mp hoperators text hreads)
    exact .inl (inked_verbatim htext)
  | openParen =>
    obtain rfl : text = ['('] := hreads
    exact .inr ⟨(.openParen, '('), by decide, rfl, rfl⟩
  | closeParen =>
    obtain rfl : text = [')'] := hreads
    exact .inr ⟨(.closeParen, ')'), by decide, rfl, rfl⟩
  | comma =>
    obtain rfl : text = [','] := hreads
    exact .inr ⟨(.comma, ','), by decide, rfl, rfl⟩
  | placeholder =>
    obtain ⟨mark, w, hmark, rfl⟩ : ∃ (mark : Char) (w : Word), isMark mark = true ∧
      text = mark :: w.chars := hreads
    refine .inl (inked_verbatim (List.forall_mem_cons.mpr ⟨?_, fun c hc => ?_⟩))
    · rw [isMark, Bool.or_eq_true, beq_iff_eq, beq_iff_eq] at hmark
      rcases hmark with rfl | rfl <;> decide +kernel
    · exact isInk_of_isPathChar (pathText_word w c hc)
  | path segments =>
    obtain ⟨s, ss, rfl, rfl⟩ : ∃ (s : Step) (ss : List Step),
      segments = s.segment :: ss.map Step.segment ∧ text = s.text ++ Step.pointed ss := hreads
    rw [Inferred.pieces]
    dsimp only [Lexeme.token]
    rcases Inferred.pathPieces_cases ctx (Lexeme.token ⟨gap, _, _⟩ offset) next with
      ⟨hp, hquoted⟩ | ⟨w, l, -, hp⟩ | hp
    · exact .inl (hp ▸ (pathText_steps hquoted).inked)
    · exact .inl (hp ▸ inked_value l)
    · exact .inl (hp ▸ inked_ofPath s ss)
  | other =>
    obtain ⟨c, rfl⟩ : ∃ c, text = [c] := hreads
    obtain ⟨d, ds, htext, hblank, hscan⟩ := h
    obtain ⟨rfl, rfl⟩ := List.cons.inj htext
    exact .inl (inked_verbatim (List.forall_mem_singleton.mpr (isInk_of_other hblank hscan)))

/-! ## Placeholders -/

theorem isInk_intText (index : Int) : ∀ c ∈ Number.intText index, isInk c = true := by
  have hdigits : ∀ n, ∀ c ∈ Number.digits n, isInk c = true := fun n c hc =>
    isInk_of_isPathChar (isPathChar_of_isWord (isWord_of_isDigit (Number.isDigit_of_mem_digits hc)))
  cases index with
  | ofNat n => exact hdigits n
  | negSucc n => exact List.forall_mem_cons.mpr ⟨by decide +kernel, hdigits (n + 1)⟩

/-- A placeholder has no white space, no parentheses, no commas and no quotes. -/
theorem isInk_placeholder (index : Int) (h : Hole) : ∀ c ∈ h.placeholder index, isInk c = true := by
  cases h with
  | name key =>
    exact List.forall_mem_cons.mpr ⟨by decide +kernel,
      List.forall_mem_cons.mpr ⟨by decide +kernel, isInk_intText index⟩⟩
  | value l =>
    exact List.forall_mem_cons.mpr ⟨by decide +kernel,
      List.forall_mem_cons.mpr ⟨by decide +kernel, isInk_intText index⟩⟩

/-- A character of a filled skeleton is one of its own, or one of a placeholder. -/
theorem isInk_of_mem_text {start : Int} {ps : Skeleton} {c : Char} (h : c ∈ text start ps) :
    Piece.char c ∈ ps ∨ isInk c = true := by
  induction ps generalizing start with
  | nil => cases h
  | cons p ps ih =>
    cases p with
    | char d =>
      rcases List.mem_cons.mp h with rfl | h
      · exact .inl List.mem_cons_self
      · exact (ih h).imp_left (List.mem_cons_of_mem _)
    | name key =>
      rcases List.mem_append.mp h with h | h
      · exact .inr (isInk_placeholder start (.name key) c h)
      · exact (ih h).imp_left (List.mem_cons_of_mem _)
    | value l =>
      rcases List.mem_append.mp h with h | h
      · exact .inr (isInk_placeholder start (.value l) c h)
      · exact (ih h).imp_left (List.mem_cons_of_mem _)

/-! ## Quotes -/

/-- A quote around a text or a name. -/
def isQuote (c : Char) : Bool :=
  c == '\x27' || isNameQuote c

theorem isQuote_of_isInk {c : Char} (h : isInk c = true) : isQuote c = false := by
  obtain ⟨hbarrier, hquote⟩ := isInk_eq_true_iff.mp h
  rw [isQuote, hquote, (Bool.or_eq_false_iff.mp hbarrier).2]
  rfl

theorem isQuote_of_mem_pieces {prev : Option TokenKind} {x : Lexeme} {rest : List Char}
    (h : Scans prev x rest) {ctx : Inferred.Context} {offset : Nat} {next : Option Token} {c : Char}
    (hc : Piece.char c ∈ Inferred.pieces ctx (x.token offset) next) : isQuote c = false := by
  rcases inked_pieces h ctx offset next with hink | ⟨s, hs, -, hpieces⟩
  · exact isQuote_of_isInk (hink c hc)
  · have hsigns : ∀ s ∈ signs, isQuote s.2 = false := forall_mem_of_all (by decide)
    rw [hpieces] at hc
    rw [Piece.char.inj (List.mem_singleton.mp hc)]
    exact hsigns s hs

/-- No token is sent with a quote. -/
theorem isQuote_of_mem_skeletonFrom {prev : Option TokenKind} {tail : List Char} {xs : List Lexeme}
    (hl : Legible prev tail xs) {ctx : Inferred.Context} {offset : Nat} {c : Char}
    (hc : Piece.char c ∈ Inferred.skeletonFrom ctx (place offset xs)) : isQuote c = false := by
  induction xs generalizing prev ctx offset with
  | nil => cases hc
  | cons x xs ih =>
    obtain ⟨-, hscans, hrest⟩ := hl
    rw [place, Inferred.skeletonFrom, List.mem_append, List.mem_append] at hc
    rcases hc with (hc | hc) | hc
    · rw [Inferred.gap] at hc
      split at hc
      · rw [Piece.char.inj (List.mem_singleton.mp hc)]
        decide
      · cases hc
    · exact isQuote_of_mem_pieces hscans hc
    · exact ih hrest hc

theorem text_verbatim_append (index : Int) (cs : List Char) (ps : Skeleton) :
    text index (verbatim cs ++ ps) = cs ++ text index ps := by
  induction cs with
  | nil => rfl
  | cons c cs ih => exact congrArg (c :: ·) ih

theorem names_verbatim_append (index : Int) (cs : List Char) (ps : Skeleton) :
    names index (verbatim cs ++ ps) = names index ps := by
  induction cs with
  | nil => rfl
  | cons c cs ih => exact ih

theorem add_natCast_succ (index : Int) (i : Nat) :
    index + ((i + 1 : Nat) : Int) = index + 1 + i := by
  omega

/-- A path is sent as placeholders joined by points, one for each segment, with the indexes of the
segment kept behind it. -/
theorem sent_ofPath (index : Int) (segments : List Segment) :
    sent index (ofPath segments) = ['.'].intercalate (segments.mapIdx fun i s =>
      '#' :: 'V' :: Number.intText (index + i) ++ s.suffix) := by
  rw [← text_eq_sent]
  induction segments generalizing index with
  | nil => rfl
  | cons s segments ih =>
    have hhead := text_verbatim_append (index + 1) s.suffix
    rw [List.mapIdx_cons]
    simp only [add_natCast_succ]
    rw [show index + ((0 : Nat) : Int) = index from Int.add_zero index]
    cases segments with
    | nil =>
      have hlast := hhead []
      rw [List.append_nil, Skeleton.text, List.append_nil] at hlast
      rw [List.mapIdx_nil, List.intercalate_singleton]
      exact congrArg ('#' :: 'V' :: Number.intText index ++ ·) hlast
    | cons t segments =>
      have hrest := hhead (.char '.' :: ofPath (t :: segments))
      rw [Skeleton.text, ih, List.mapIdx_cons] at hrest
      rw [List.mapIdx_cons, List.intercalate_cons_cons]
      refine (congrArg ('#' :: 'V' :: Number.intText index ++ ·) hrest).trans ?_
      simp only [List.cons_append, List.append_assoc, List.nil_append]

/-- The names of a path are those of its segments, in their order. -/
theorem boundNames_ofPath (index : Int) (segments : List Segment) :
    boundNames index (ofPath segments) = segments.mapIdx fun i s =>
      (String.ofList ('#' :: 'V' :: Number.intText (index + i)), String.ofList s.name) := by
  rw [← names_eq_boundNames]
  induction segments generalizing index with
  | nil => rfl
  | cons s segments ih =>
    have hhead : names index (ofPath (s :: segments)) =
        (String.ofList (namePlaceholder index), String.ofList s.name) ::
          names (index + 1) (ofPath segments) := by
      cases segments with
      | nil =>
        have hsuffix := names_verbatim_append (index + 1) s.suffix []
        rw [List.append_nil] at hsuffix
        exact congrArg (_ :: ·) hsuffix
      | cons t segments =>
        exact congrArg (_ :: ·) (names_verbatim_append (index + 1) s.suffix (.char '.' :: _))
    rw [hhead, List.mapIdx_cons, ih]
    simp only [add_natCast_succ]
    rw [show index + ((0 : Nat) : Int) = index from Int.add_zero index]
    rfl

/-- A quoted path is replaced wherever it stands. -/
theorem pieces_of_quoted {t : Token} (h : t.segments.any (·.quoted) = true)
    (ctx : Inferred.Context) (next : Option Token) :
    Inferred.pieces ctx t next = ofPath t.segments := by
  have hword : t.bareWord? = none := by
    rw [← Option.not_isSome_iff_eq_none]
    intro hsome
    rw [Inferred.not_quoted_of_bareWord? hsome] at h
    cases h
  have hliteral : Inferred.literalAt ctx t = none := by
    rw [Inferred.literalAt, hword]
    exact ite_self none
  have hpath : Inferred.pathPieces ctx t next = ofPath t.segments := by
    rw [Inferred.pathPieces, Token.keyword?, hword, hliteral]
    exact if_pos (Inferred.isNamePosition_of_quoted h ctx next)
  obtain ⟨kind, text, offset, spaced⟩ := t
  cases kind with
  | path segments => exact hpath
  | _ => cases h

/-- What is quoted in a source is not sent: no quote is left in the expression, a text or binary
literal is bound to its payload, under the tag S or B, by one placeholder in its place, and a path
with a quoted segment is sent as placeholders for the names of all its segments, whatever stands
around it. Each of them is read from its own text. -/
theorem compile_unquoted {source : String} {start : Int} {c : Compiled}
    (h : compile .inferred start source = .ok c) :
    (∀ q ∈ ['\x27', '\x22', '\x60'], q ∉ c.expression.toList) ∧
      ∃ tokens, tokenize source.toList = .ok tokens ∧
        ∀ before t after, tokens = before ++ t :: after → t.kind.Reads t.text ∧
          (∀ payload, t.kind = .string payload →
            Inferred.Stands start before t after [.value (.string payload)] c ∧
              (String.ofList (':' :: 'V' :: Number.intText (Inferred.indexAt start before t)),
                .map [(.text "S", .text (String.ofList payload))]) ∈ c.values) ∧
          (∀ payload, t.kind = .binary payload →
            Inferred.Stands start before t after [.value (.binary payload)] c ∧
              (String.ofList (':' :: 'V' :: Number.intText (Inferred.indexAt start before t)),
                .map [(.text "B", .text (String.ofList payload))]) ∈ c.values) ∧
          (t.segments.any (·.quoted) = true →
            Inferred.Stands start before t after (ofPath t.segments) c ∧ ∀ index,
              sent index (ofPath t.segments) = ['.'].intercalate (t.segments.mapIdx fun i s =>
                '#' :: 'V' :: Number.intText (index + i) ++ s.suffix) ∧
              boundNames index (ofPath t.segments) = t.segments.mapIdx fun i s =>
                (String.ofList ('#' :: 'V' :: Number.intText (index + i)),
                  String.ofList s.name)) := by
  obtain ⟨tokens, htokens, rfl⟩ := Inferred.exists_tokens h
  obtain ⟨xs, tail, -, hlegible, -, -, rfl⟩ := tokenize_eq_ok_iff.mp htokens
  refine ⟨fun q hq hmem => ?_, _, htokens, fun before t after htoken => ?_⟩
  · have hquotes : ∀ q ∈ ['\x27', '\x22', '\x60'], isQuote q = true :=
      forall_mem_of_all (by decide)
    rw [fill, String.toList_ofList] at hmem
    have hsent : isQuote q = false := by
      rcases isInk_of_mem_text hmem with hchar | hink
      · exact isQuote_of_mem_skeletonFrom hlegible hchar
      · exact isQuote_of_isInk hink
    rw [hquotes q hq] at hsent
    cases hsent
  · have hreads := reads_of_mem_place hlegible (htoken ▸ List.mem_append_right _ List.mem_cons_self)
    refine ⟨hreads, fun payload hkind => ?_, fun payload hkind => ?_, fun hquoted => ⟨?_, ?_⟩⟩
    · have hpieces : Inferred.pieces (Inferred.contextAfter before) t after.head? =
          [.value (.string payload)] := by rw [Inferred.pieces, hkind]
      have hstands := Inferred.stands_of_pieces htoken hpieces start
      exact ⟨hstands, hstands.value_mem⟩
    · have hpieces : Inferred.pieces (Inferred.contextAfter before) t after.head? =
          [.value (.binary payload)] := by rw [Inferred.pieces, hkind]
      have hstands := Inferred.stands_of_pieces htoken hpieces start
      exact ⟨hstands, hstands.value_mem⟩
    · exact Inferred.stands_of_pieces htoken (pieces_of_quoted hquoted _ _) start
    · exact fun index => ⟨sent_ofPath index t.segments, boundNames_ofPath index t.segments⟩

/-- Quotes within quotes, and a quoted path as the argument of a function. -/
theorem compile_unquoted_call :
    ∃ c, compile .inferred 1 "contains(\x60a b\x60, 'it\\'s') AND c = <e'f>" = .ok c ∧
      c.expression = "contains(#V1, :V2) AND #V3 = :V4" ∧ c.names = [("#V1", "a b"), ("#V3", "c")] ∧
      c.values = [(":V2", .map [(.text "S", .text "it's")]),
        (":V4", .map [(.text "B", .text "e'f")])] ∧
      '\x27' ∉ c.expression.toList := by
  have hskeleton : skeleton .inferred "contains(\x60a b\x60, 'it\\'s') AND c = <e'f>".toList = .ok
      (verbatim "contains(".toList ++ .name "a b".toList :: .char ',' :: .char ' ' ::
        .value (.string "it's".toList) :: verbatim ") AND ".toList ++
        [.name ['c'], .char ' ', .char '=', .char ' ', .value (.binary "e'f".toList)]) :=
    eq_ok_of_toOption (by decide +kernel)
  obtain ⟨c, hc⟩ : ∃ c,
      compile .inferred 1 "contains(\x60a b\x60, 'it\\'s') AND c = <e'f>" = .ok c :=
    ⟨_, by rw [compile, hskeleton]⟩
  refine ⟨c, hc, ?_, ?_, ?_, (compile_unquoted hc).1 '\x27' (by decide)⟩
  all_goals
    rw [compile, hskeleton] at hc
    cases hc
  · decide +kernel
  · decide +kernel
  · with_unfolding_all rfl

end ItemStore.Expression
