import ItemStore.Proofs.Expression.Pieces

/-
  A minus sign directly in front of a number, where literal types are inferred. Behind an operator,
  an opening parenthesis, a comma or a keyword it is part of the number, and the number is sent as
  one placeholder (`compile_negative`). Behind anything else it is an operator of its own, also
  where nothing but a value can follow: behind the path of an ADD operand it is sent as it is, and
  the number is bound without it. `not_compile_negative` shows that this is so, and that a
  comparison in front of a negative number can be read as a binary literal.

  What stands behind a token is known from the source (`exists_behind`), and the first token of it
  from one scan (`exists_first`).
-/

namespace ItemStore.Expression

open Text Lexeme

/-! ## The tokens behind a token -/

namespace Lexeme

/-- The last of the tokens ends where the lexemes end. -/
theorem end_of_place {ys : List Lexeme} {offset : Nat} {ts : List Token} {p : Token}
    (h : place offset ys = ts ++ [p]) (prev : Option TokenKind) :
    p.offset + p.text.length = offset + (print ys).length ∧ kindAfter prev ys = some p.kind := by
  induction ys generalizing offset ts prev with
  | nil => cases ts <;> cases h
  | cons y ys ih =>
    have hlength : (print (y :: ys)).length =
        y.gap.length + (y.text.length + (print ys).length) := by
      rw [print, List.length_append, List.length_append, Nat.add_assoc]
    cases ts with
    | nil =>
      obtain ⟨rfl, hnil⟩ := List.cons.inj h
      obtain rfl : ys = [] := by
        cases ys with
        | nil => rfl
        | cons => cases hnil
      refine ⟨?_, rfl⟩
      rw [hlength, token, print]
      simp only [List.length_nil, Nat.add_zero, Nat.add_assoc]
    | cons t ts =>
      obtain ⟨hend, hkind⟩ := ih (List.cons.inj h).2 (some y.kind)
      refine ⟨?_, hkind⟩
      rw [hend, hlength]
      omega

theorem exists_behind {source : List Char} {before behind : List Token} {p : Token}
    (h : tokenize source = .ok (before ++ p :: behind)) :
    ∃ zs tail, (∀ c ∈ tail, isBlank c = true) ∧ Legible (some p.kind) tail zs ∧
      behind = place (p.offset + p.text.length) zs ∧
      source.drop (p.offset + p.text.length) = print zs ++ tail := by
  obtain ⟨xs, tail, htail, hlegible, -, hsource, hplace⟩ := tokenize_eq_ok_iff.mp h
  rw [List.append_cons] at hplace
  obtain ⟨ys, zs, rfl, hys, rfl⟩ := place_eq_append hplace.symm
  obtain ⟨hend, hkind⟩ := end_of_place hys.symm none
  rw [Nat.zero_add] at hend
  refine ⟨zs, tail, htail, hkind ▸ (legible_append.mp hlegible).2, ?_, ?_⟩
  · rw [hend, Nat.zero_add]
  · rw [hend, hsource, print_append, List.append_assoc, List.drop_left]

/-- The first token of what legible lexemes print is known from its scan. -/
theorem exists_first {prev : Option TokenKind} {tail gap cs rest : List Char} {zs : List Lexeme}
    {c : Char} {kind : TokenKind} (ht : ∀ d ∈ tail, isBlank d = true)
    (hl : Legible prev tail zs) (hgap : ∀ d ∈ gap, isBlank d = true) (hc : isBlank c = false)
    (hprint : print zs ++ tail = gap ++ c :: cs)
    (hscan : scanToken (before prev) c cs = .ok (kind, rest)) :
    ∃ x zs', zs = x :: zs' ∧ x.kind = kind ∧ x.text ++ rest = c :: cs ∧
      print zs' ++ tail = rest ∧ Legible (some kind) tail zs' := by
  cases zs with
  | nil =>
    have hmem : c ∈ tail := (show tail = gap ++ c :: cs from hprint) ▸ by simp
    rw [ht c hmem] at hc
    cases hc
  | cons x zs =>
    obtain ⟨hgap', ⟨d, ds, htext, hd, hscan'⟩, hrest⟩ := hl
    -- both gaps are all the white space in front
    have hsame : d :: (ds ++ (print zs ++ tail)) = c :: cs := by
      have hdrop := congrArg (List.dropWhile isBlank) hprint
      rw [print, htext, List.append_assoc, List.append_assoc, List.cons_append,
        dropWhile_run hgap' (stops_cons.mpr hd), dropWhile_run hgap (stops_cons.mpr hc)] at hdrop
      exact hdrop
    obtain ⟨rfl, rfl⟩ := List.cons.inj hsame
    rw [hscan'] at hscan
    obtain ⟨hkind, hrest'⟩ := Prod.mk.inj (Except.ok.inj hscan)
    refine ⟨x, zs, rfl, hkind, ?_, hrest', hkind ▸ hrest⟩
    rw [htext, ← hrest', List.cons_append]

end Lexeme

/-! ## Scanning -/

theorem scanToken_of_scanNumberAfter {prev : Option Token} {c : Char} {cs rest : List Char}
    (hquote : c ≠ '\x27') (h : scanNumberAfter prev (c :: cs) = some rest) :
    scanToken prev c cs = .ok (.number, rest) := by
  rw [scanToken, if_neg hquote, h]

/-- A minus sign is part of the number behind it where a value is expected. -/
theorem scanToken_negative {prev : Option Token} (hv : valueExpected prev = true) (n : Numeral)
    {rest : List Char} (hw : Stops isWord rest) (hp : Stops (· == '.') rest) :
    scanToken prev '-' (n.unsigned ++ rest) = .ok (.number, rest) := by
  refine scanToken_of_scanNumberAfter (by decide) ?_
  rw [scanNumberAfter, hv, if_pos rfl, scanSignedNumber, scanNumber_unsigned n hw hp]

/-- A minus sign is an operator where no value is expected. -/
theorem scanToken_minus {prev : Option Token} (hv : valueExpected prev = false) (cs : List Char) :
    scanToken prev '-' cs = .ok (.operator, cs) := by
  refine scanToken_of_scanOperator (by decide) ?_ (scanBinary_of_ne (by decide) cs) rfl
  rw [scanNumberAfter, hv]
  exact scanNumber_of_not_isDigit (by decide) cs

theorem valueExpected_before (p : Token) :
    valueExpected (Lexeme.before (some p.kind)) = true ↔
      p.kind = .operator ∨ p.kind = .openParen ∨ p.kind = .comma ∨ p.keyword?.isSome = true := by
  show Token.expectsValue p = true ↔ _
  simp only [Token.expectsValue, Bool.or_eq_true, beq_iff_eq, or_assoc]

/-! ## Compiled numbers -/

/-- A number is a value unless it is the first token. -/
theorem stands_number {tokens before after : List Token} {t : Token}
    (htokens : tokens = before ++ t :: after) (hbefore : before ≠ []) (ht : t.kind = .number)
    (start : Int) :
    Inferred.Stands start before t after [.value (.number t.text)]
      ((Inferred.skeletonFrom {} tokens).fill start) := by
  refine Inferred.stands_of_pieces htokens ?_ start
  rw [Inferred.pieces, ht, Inferred.prev_contextAfter]
  exact if_pos (List.getLast?_isSome.mpr hbefore)

/-- A number in its place is bound as it is written. -/
theorem number_bound {start : Int} {before after : List Token} {t : Token} {cs : List Char}
    {c : Compiled} (h : Inferred.Stands start before t after [.value (.number t.text)] c)
    (ht : t.text = cs) :
    Inferred.Stands start before t after [.value (.number t.text)] c ∧
      (String.ofList (':' :: 'V' :: Number.intText (Inferred.indexAt start before t)),
        .map [(.text "N", .text (String.ofList cs))]) ∈ c.values :=
  ⟨h, ht ▸ h.value_mem⟩

theorem stands_operator {tokens before after : List Token} {t : Token}
    (htokens : tokens = before ++ t :: after) (ht : t.kind = .operator) (start : Int) :
    Inferred.Stands start before t after (Skeleton.verbatim t.text)
      ((Inferred.skeletonFrom {} tokens).fill start) := by
  refine Inferred.stands_of_pieces htokens ?_ start
  rw [Inferred.pieces, ht]

/-- A number with a minus sign directly in front, behind a token of a source that has tokens, with
any white space between the two. Where an operator, an opening parenthesis, a comma or a keyword
stands in front, sign and number are one value, bound as they are written under the tag N. Anywhere
else the sign is sent as it is, and the number without it is the value. -/
theorem compile_negative {source : String} {before behind : List Token} {p : Token}
    {gap rest : List Char} {n : Numeral}
    (htokens : tokenize source.toList = .ok (before ++ p :: behind))
    (hgap : ∀ c ∈ gap, isBlank c = true)
    (hsource : source.toList.drop (p.offset + p.text.length) = gap ++ '-' :: (n.unsigned ++ rest))
    (hw : Stops isWord rest) (hpoint : Stops (· == '.') rest) (start : Int) :
    ∃ c, compile .inferred start source = .ok c ∧
      (p.kind = .operator ∨ p.kind = .openParen ∨ p.kind = .comma ∨ p.keyword?.isSome = true →
        ∃ t after, behind = t :: after ∧ t.text = '-' :: n.unsigned ∧
          Inferred.Stands start (before ++ [p]) t after [.value (.number t.text)] c ∧
          (String.ofList (':' :: 'V' :: Number.intText (Inferred.indexAt start (before ++ [p]) t)),
            .map [(.text "N", .text (String.ofList ('-' :: n.unsigned)))]) ∈ c.values) ∧
      (¬(p.kind = .operator ∨ p.kind = .openParen ∨ p.kind = .comma ∨ p.keyword?.isSome = true) →
        ∃ t u after, behind = t :: u :: after ∧ t.text = ['-'] ∧ u.text = n.unsigned ∧
          Inferred.Stands start (before ++ [p]) t (u :: after) (Skeleton.verbatim t.text) c ∧
          Inferred.Stands start (before ++ [p, t]) u after [.value (.number u.text)] c ∧
          (String.ofList
              (':' :: 'V' :: Number.intText (Inferred.indexAt start (before ++ [p, t]) u)),
            .map [(.text "N", .text (String.ofList n.unsigned))]) ∈ c.values) := by
  obtain ⟨zs, tail, htail, hlegible, hbehind, hdrop⟩ := exists_behind htokens
  rw [hsource] at hdrop
  refine ⟨_, Inferred.compile_of_tokens htokens start, fun hp => ?_, fun hp => ?_⟩
  · have hv := (valueExpected_before p).mpr hp
    obtain ⟨x, zs, rfl, hkind, htext, -, -⟩ := exists_first htail hlegible hgap (by decide)
      hdrop.symm (scanToken_negative hv n hw hpoint)
    rw [← List.cons_append] at htext
    have htext := List.append_cancel_right htext
    refine ⟨x.token _, _, hbehind, htext, ?_⟩
    exact number_bound (stands_number (by rw [hbehind, place]; simp) (by simp) hkind start) htext
  · have hv := Bool.not_eq_true _ ▸ mt (valueExpected_before p).mp hp
    obtain ⟨x, zs, rfl, hkind, htext, hprint, hrest⟩ := exists_first htail hlegible hgap (by decide)
      hdrop.symm (scanToken_minus hv _)
    -- the number stands directly behind its sign
    obtain ⟨d, ds, hunsigned, hd⟩ := exists_cons_of_unsigned n
    have hscan := scanNumberAfter_unsigned (Lexeme.before (some .operator)) n hw hpoint
    rw [hunsigned, List.cons_append] at hprint hscan
    obtain ⟨y, zs, rfl, hkind', htext', -, -⟩ := exists_first htail hrest blank_nil
      (isBlank_of_isWord (isWord_of_isDigit hd)) hprint
      (scanToken_of_scanNumberAfter (by rintro rfl; cases hd) hscan)
    rw [← List.cons_append] at htext'
    rw [← List.singleton_append] at htext
    have hnumber : y.text = n.unsigned := hunsigned ▸ List.append_cancel_right htext'
    refine ⟨x.token _, y.token _, _, hbehind, List.append_cancel_right htext, hnumber, ?_, ?_⟩
    · exact stands_operator (by rw [hbehind, place, place]; simp) hkind start
    · exact number_bound
        (stands_number (by rw [hbehind, place, place]; simp) (by simp) hkind' start) hnumber

/-- A negative number behind a comparison. -/
theorem compile_negative_comparison :
    ∃ c t, compile .inferred 1 "a >= -1.5" = .ok c ∧ t.text = "-1.5".toList ∧
      Inferred.Stands 1
        [⟨.path [⟨['a'], [], false⟩], ['a'], 0, false⟩, ⟨.operator, ['>', '='], 2, true⟩] t []
        [.value (.number t.text)] c ∧
      c.expression = "#V1 >= :V2" ∧ (":V2", .map [(.text "N", .text "-1.5")]) ∈ c.values := by
  let n : Numeral := ⟨false, ⟨['1'], by decide, forall_mem_of_all (by decide +kernel)⟩,
    some ⟨['5'], by decide, forall_mem_of_all (by decide +kernel)⟩⟩
  have htokens : tokenize "a >= -1.5".toList = .ok
      ([⟨.path [⟨['a'], [], false⟩], ['a'], 0, false⟩] ++ ⟨.operator, ['>', '='], 2, true⟩ ::
        [⟨.number, "-1.5".toList, 5, true⟩]) :=
    eq_ok_of_toOption (by decide +kernel)
  have hsource : "a >= -1.5".toList.drop (2 + ['>', '='].length) =
      [' '] ++ '-' :: (n.unsigned ++ []) := by
    decide +kernel
  obtain ⟨c, hc, hvalue, -⟩ := compile_negative htokens blank_space hsource (stops_nil _)
    (stops_nil _) 1
  obtain ⟨t, after, hbehind, htext, hstands, hmem⟩ := hvalue (.inl rfl)
  obtain ⟨rfl, rfl⟩ := List.cons.inj hbehind
  have hexpression : (compile .inferred 1 "a >= -1.5").toOption.map (·.expression) =
      some "#V1 >= :V2" := by decide +kernel
  rw [hc] at hexpression
  have hplaceholder : String.ofList (':' :: 'V' :: Number.intText (Inferred.indexAt 1
      ([⟨.path [⟨['a'], [], false⟩], ['a'], 0, false⟩] ++ [⟨.operator, ['>', '='], 2, true⟩])
      ⟨.number, "-1.5".toList, 5, true⟩)) = ":V2" := by decide +kernel
  rw [hplaceholder] at hmem
  exact ⟨c, _, hc, htext, hstands, Option.some.inj hexpression, hmem⟩

/-- The sign of an operand of ADD is sent as an operator; and behind a comparison that is read as a
binary literal, since another bracket closes it, there is no number. -/
theorem not_compile_negative :
    (∃ c, compile .inferred 1 "ADD score -5" = .ok c ∧ c.expression = "ADD #V1 -:V2" ∧
      c.values = [(":V2", .map [(.text "N", .text "5")])]) ∧
    ∃ c, compile .inferred 1 "(a<-1)AND(b>0)" = .ok c ∧ c.expression = "(a:V1:V2)" ∧
      c.values = [(":V1", .map [(.text "B", .text "-1)AND(b")]),
        (":V2", .map [(.text "N", .text "0")])] := by
  have hsum : skeleton .inferred "ADD score -5".toList = .ok (Skeleton.verbatim "ADD ".toList ++
      [.name "score".toList, .char ' ', .char '-', .value (.number ['5'])]) :=
    eq_ok_of_toOption (by decide +kernel)
  have hreaching : skeleton .inferred "(a<-1)AND(b>0)".toList = .ok [.char '(', .char 'a',
      .value (.binary "-1)AND(b".toList), .value (.number ['0']), .char ')'] :=
    eq_ok_of_toOption (by decide +kernel)
  have hfirst : String.ofList (Skeleton.valuePlaceholder 1) = ":V1" := by decide +kernel
  have hsecond : String.ofList (Skeleton.valuePlaceholder 2) = ":V2" := by decide +kernel
  rw [← hfirst, ← hsecond]
  exact ⟨⟨_, by rw [compile, hsum], by decide +kernel, rfl⟩,
    _, by rw [compile, hreaching], by decide +kernel, rfl⟩

end ItemStore.Expression
