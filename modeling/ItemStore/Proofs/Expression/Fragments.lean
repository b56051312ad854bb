import ItemStore.Proofs.Expression.Closed

/-
  What expressions are put together from when their names and values are placeholders: placeholders
  with points and indexes behind them, comparisons and arithmetic, keywords in any case, calls,
  parentheses and commas. A fragment ends in front of a character (`endsBefore`) unless it goes on
  with it or is something else in front of it.

  A fragment is read as its own lexemes where it ends and no binary literal starts
  (`legible_lexemes`), and all but an index are sent as they are, with what is left of the white
  space in front (`yields_lexemes`). White space is left out behind an opening parenthesis and in
  front of a closing one or a comma, where every fragment ends (`endsBefore_of_closes`).
-/

namespace ItemStore.Expression

open Text Lexeme Inferred

/-! ## Keywords in any case -/

/-- A word that is a keyword in some case. -/
structure KeywordWord extends Word where
  keyword : Keyword
  isKeyword : Keyword.ofWord? chars = some keyword

namespace KeywordWord

/-- A keyword as a name. -/
def name (w : KeywordWord) : PlainName :=
  ⟨w.toWord, []⟩

theorem text_name (w : KeywordWord) : w.name.text = w.chars :=
  List.append_nil _

/-- A keyword has letters. -/
theorem all_isDigit (w : KeywordWord) : w.chars.all isDigit = false := by
  rw [← Bool.not_eq_true, List.all_eq_true]
  intro hdigits
  have hfound : Keyword.all.find? (fun k => upper w.chars == k.text.toList) = some w.keyword :=
    w.isKeyword
  have hsome := List.find?_some hfound
  have hupper : upper w.chars = w.keyword.text.toList := beq_iff_eq.mp hsome
  have hletter : w.keyword.text.toList.all isDigit = false := by
    cases w.keyword <;> decide +kernel
  rw [← hupper, upper_of_digits hdigits, List.all_eq_true.mpr hdigits] at hletter
  cases hletter

end KeywordWord

/-! ## Fragments -/

/-- What an expression is put together from when its names and values are placeholders. -/
inductive Fragment where
  | name (w : Word)
  | value (w : Word)
  | point
  | index (d : Digits)
  | comparison (op : Comparison)
  | arithmetic (op : Arithmetic)
  | keyword (w : KeywordWord)
  | call (f : PlainFunction)
  | openParen
  | closeParen
  | comma

namespace Fragment

/-- A fragment as text. A call is the name of a function with the parenthesis behind it. -/
def text : Fragment → List Char
  | .name w => '#' :: w.chars
  | .value w => ':' :: w.chars
  | .point => ['.']
  | .index d => d.index
  | .comparison op => op.text.toList
  | .arithmetic op => op.text.toList
  | .keyword w => w.chars
  | .call f => f.name.text ++ ['(']
  | .openParen => ['(']
  | .closeParen => [')']
  | .comma => [',']

/-- Whether a fragment is the index of a list. -/
def isIndex : Fragment → Bool
  | .index _ => true
  | _ => false

/-- Whether a fragment ends in an opening parenthesis. -/
def opens : Fragment → Bool
  | .call _ | .openParen => true
  | _ => false

/-- Whether no space stands in front of a fragment. -/
def closes : Fragment → Bool
  | .closeParen | .comma => true
  | _ => false

/-- Whether a fragment ends in front of a character. -/
def endsBefore (c : Char) : Fragment → Bool
  | .name _ | .value _ => !isWord c
  | .comparison op => op.endsBefore c
  | .arithmetic op => op.endsBefore c
  | .keyword _ => !continuesPath c
  | _ => true

/-- How many parentheses are open after a fragment; none if it closes one that is not open. -/
def depthStep (depth : Nat) : Fragment → Option Nat
  | .call _ | .openParen => some (depth + 1)
  | .closeParen => if depth = 0 then none else some (depth - 1)
  | _ => some depth

/-- A fragment as lexemes, with a gap in front. -/
def lexemes (gap : List Char) : Fragment → List Lexeme
  | .name w => [⟨gap, .placeholder, '#' :: w.chars⟩]
  | .value w => [⟨gap, .placeholder, ':' :: w.chars⟩]
  | .point => [⟨gap, .other, ['.']⟩]
  | .index d => [⟨gap, .other, ['[']⟩, ⟨[], .number, d.chars⟩, ⟨[], .other, [']']⟩]
  | .comparison op => [⟨gap, .operator, op.text.toList⟩]
  | .arithmetic op => [⟨gap, .operator, op.text.toList⟩]
  | .keyword w => [w.name.lexeme gap]
  | .call f => [f.toFunctionName.lexeme gap, Expression.openParen []]
  | .openParen => [Expression.openParen gap]
  | .closeParen => [⟨gap, .closeParen, [')']⟩]
  | .comma => [⟨gap, .comma, [',']⟩]

theorem print_lexemes (f : Fragment) (gap : List Char) : print (f.lexemes gap) = gap ++ f.text := by
  cases f with
  | keyword w =>
    show gap ++ w.name.text ++ [] = gap ++ w.chars
    rw [List.append_nil, w.text_name]
  | call f =>
    simp [lexemes, text, print, FunctionName.lexeme, PlainName.lexeme, Expression.openParen]
  | index d => simp [lexemes, text, print, Digits.index]
  | _ => simp [lexemes, text, print, Expression.openParen]

theorem text_ne_nil (f : Fragment) : f.text ≠ [] := by
  cases f with
  | keyword w => exact w.ne_nil
  | call f => exact List.append_ne_nil_of_right_ne_nil _ (List.cons_ne_nil _ _)
  | comparison op => cases op <;> exact List.cons_ne_nil _ _
  | arithmetic op => cases op <;> exact List.cons_ne_nil _ _
  | _ => exact List.cons_ne_nil _ _

theorem endsBefore_space (f : Fragment) : f.endsBefore ' ' = true := by
  cases f with
  | comparison op => cases op <;> rfl
  | arithmetic op => cases op <;> rfl
  | name | value =>
    show (!isWord ' ') = true
    decide +kernel
  | keyword =>
    show (!continuesPath ' ') = true
    decide +kernel
  | _ => rfl

theorem endsBefore_of_opens {f : Fragment} (h : f.opens = true) (c : Char) :
    f.endsBefore c = true := by
  cases f with
  | call | openParen => rfl
  | _ => cases h

/-- What has no space in front can stand behind every fragment. -/
theorem endsBefore_of_closes {g : Fragment} (h : g.closes = true) (f : Fragment) :
    ∀ c ∈ g.text.head?, f.endsBefore c = true := by
  have hall : f.endsBefore ')' = true ∧ f.endsBefore ',' = true := by
    cases f with
    | comparison op => cases op <;> exact ⟨rfl, rfl⟩
    | arithmetic op => cases op <;> exact ⟨rfl, rfl⟩
    | name | value =>
      show (!isWord ')') = true ∧ (!isWord ',') = true
      decide +kernel
    | keyword =>
      show (!continuesPath ')') = true ∧ (!continuesPath ',') = true
      decide +kernel
    | _ => exact ⟨rfl, rfl⟩
  intro c hc
  cases g with
  | closeParen => exact Option.some.inj (show some ')' = some c from hc) ▸ hall.1
  | comma => exact Option.some.inj (show some ',' = some c from hc) ▸ hall.2
  | _ => cases h

/-! ## What a fragment is read as -/

theorem depthAfter_lexemes (f : Fragment) (gap : List Char) (depth : Nat) (xs : List Lexeme) :
    depthAfter depth (f.lexemes gap ++ xs) = (f.depthStep depth).bind (depthAfter · xs) := by
  cases f <;> rfl

/-- Points and brackets are tokens that say nothing. -/
theorem scans_sign (prev : Option TokenKind) (gap : List Char) {c : Char}
    (h : c ∈ ['.', '[', ']']) (rest : List Char) : Scans prev ⟨gap, .other, [c]⟩ rest := by
  have hne : ∀ d, ['.', '[', ']'].contains d = false → c ≠ d := by
    rintro d hd rfl
    rw [List.contains_iff_mem.mpr h] at hd
    cases hd
  have hclasses : ∀ c ∈ ['.', '[', ']'], isBlank c = false ∧ isDigit c = false ∧
      (isNameQuote c || isWord c) = false := forall_mem_of_all (by decide +kernel)
  obtain ⟨hblank, hdigit, hstarts⟩ := hclasses c h
  have hoperator : ∀ d ∈ ['=', '<', '>', '+', '-'], c ≠ d := by
    have hsigns : ∀ d ∈ ['=', '<', '>', '+', '-'], ['.', '[', ']'].contains d = false :=
      forall_mem_of_all (by decide)
    exact fun d hd => hne d (hsigns d hd)
  have hsign : ¬(c = '(' ∨ c = ')' ∨ c = ',') := by
    rintro (hc | hc | hc)
    all_goals exact hne _ rfl hc
  have hplaceholder : scanPlaceholder (c :: rest) = none := by
    rw [scanPlaceholder, beq_eq_false_iff_ne.mpr (hne '#' rfl),
      beq_eq_false_iff_ne.mpr (hne ':' rfl)]
    rfl
  refine ⟨c, [], rfl, hblank, ?_⟩
  rw [List.nil_append, scanToken, if_neg (hne _ rfl), scanNumberAfter_of_ne (hne _ rfl)
    (scanNumber_of_not_isDigit hdigit rest), scanBinary_of_ne (hne _ rfl),
    scanOperator_of_ne hoperator]
  exact scanWordOrSign_other hsign hplaceholder hstarts

/-- A placeholder is one token up to where its word ends. -/
theorem scans_placeholder (prev : Option TokenKind) (gap : List Char) {mark : Char}
    (hm : isMark mark = true) (w : Word) {rest : List Char} (h : Stops isWord rest) :
    Scans prev ⟨gap, .placeholder, mark :: w.chars⟩ rest := by
  have hstarts : startsWord (w.chars ++ rest) = true := by
    rw [startsWord_iff, takeWhile_run w.isWord_of_mem h]
    exact w.ne_nil
  refine ⟨mark, w.chars, rfl, ?_, ?_⟩
  · rw [← Bool.not_eq_true]
    intro hb
    rw [isMark_of_isBlank hb] at hm
    cases hm
  · rw [scanToken_of_isMark _ hm, hstarts, dropWhile_run w.isWord_of_mem h]
    rfl

/-- Digits are one token up to where a bracket closes them. -/
theorem scans_digits (prev : Option TokenKind) (gap : List Char) (d : Digits) (rest : List Char) :
    Scans prev ⟨gap, .number, d.chars⟩ (']' :: rest) := by
  obtain ⟨c, cs, hcons, hdigit⟩ := exists_cons_of_unsigned ⟨false, d, none⟩
  have hscan : scanNumberAfter (before prev) (c :: (cs ++ ']' :: rest)) = some (']' :: rest) := by
    rw [← List.cons_append, ← hcons]
    exact scanNumberAfter_unsigned _ _ (stops_cons.mpr (by decide +kernel)) (stops_cons.mpr rfl)
  refine ⟨c, cs, hcons, isBlank_of_isWord (isWord_of_isDigit hdigit), ?_⟩
  rw [scanToken, if_neg (ne_of_class hdigit (by decide)), hscan]

/-- The lexemes of a fragment are legible in front of what does not go on with it, if no binary
literal starts there. -/
theorem legible_lexemes (f : Fragment) (prev : Option TokenKind) {gap rest : List Char}
    (hgap : ∀ c ∈ gap, isBlank c = true) (h : ∀ c ∈ rest.head?, f.endsBefore c = true)
    (hb : scanBinary (f.text ++ rest) = none) : Legible prev rest (f.lexemes gap) := by
  have hstops : ∀ p : Char → Bool, (∀ c ∈ rest.head?, (!p c) = true) → Stops p rest :=
    fun p hp c hc => Bool.not_eq_true' _ ▸ hp c hc
  cases f with
  | name w => exact ⟨hgap, scans_placeholder prev gap rfl w (hstops isWord h), trivial⟩
  | value w => exact ⟨hgap, scans_placeholder prev gap rfl w (hstops isWord h), trivial⟩
  | point => exact ⟨hgap, scans_sign prev gap (by decide) rest, trivial⟩
  | index d =>
    exact ⟨hgap, scans_sign prev gap (by decide) _, blank_nil, scans_digits _ [] d rest, blank_nil,
      scans_sign _ [] (by decide) rest, trivial⟩
  | comparison op => exact ⟨hgap, scans_comparison_of_endsBefore prev op h hb, trivial⟩
  | arithmetic op => exact ⟨hgap, scans_arithmetic_of_endsBefore prev op h, trivial⟩
  | keyword w =>
    exact ⟨hgap, scans_name w.name w.all_isDigit (fun hp => absurd rfl hp) (hstops _ h), trivial⟩
  | call f =>
    exact ⟨hgap, scans_plainFunction f (boundary_cons.mpr rfl), blank_nil, scans_openParen _ _ _,
      trivial⟩
  | openParen => exact ⟨hgap, scans_openParen _ _ _, trivial⟩
  | closeParen => exact ⟨hgap, scans_closeParen _ _, trivial⟩
  | comma => exact ⟨hgap, scans_comma _ _, trivial⟩

/-- The white space that is left of a gap between two fragments. -/
def gapAfter (prev : Option Fragment) (gap : List Char) (f : Fragment) : List Char :=
  if prev.any (fun p => !p.opens) && !gap.isEmpty && !f.closes then [' '] else []

/-- Whether a context is that behind a fragment, as far as white space goes. -/
def Fits (prev : Option Fragment) (ctx : Context) : Prop :=
  ctx.prev.any (fun p => p.kind != .openParen) = prev.any fun p => !p.opens

theorem fits_lexemes {f : Fragment} (hindex : f.isIndex = false) (ctx : Context)
    (gap : List Char) (offset : Nat) :
    Fits (some f) ((place offset (f.lexemes gap)).foldl Context.after ctx) := by
  cases f with
  | index => cases hindex
  | _ => rfl

/-- What is left of a gap is the space in front of the lexeme. -/
theorem gap_eq_gapAfter {f : Fragment} {prev : Option Fragment} {ctx : Context}
    (hfits : Fits prev ctx) {x : Lexeme}
    (hx : (x.kind != .closeParen && x.kind != .comma) = !f.closes) (offset : Nat) :
    Inferred.gap ctx.prev (x.token offset) = Skeleton.verbatim (gapAfter prev x.gap f) := by
  have hfits : ctx.prev.any (fun p => p.kind != .openParen) = prev.any fun p => !p.opens := hfits
  show (if ctx.prev.any _ && !x.gap.isEmpty && x.kind != .closeParen && x.kind != .comma then _
    else _) = _
  rw [hfits, Bool.and_assoc _ (x.kind != .closeParen), hx, gapAfter]
  split <;> rfl

/-- A fragment of one lexeme that is sent as it is. -/
theorem yields_single {f : Fragment} {prev : Option Fragment} {ctx : Context}
    (hfits : Fits prev ctx) (x : Lexeme)
    (hx : (x.kind != .closeParen && x.kind != .comma) = !f.closes)
    (hp : ∀ offset next, pieces ctx (x.token offset) next = Skeleton.verbatim x.text)
    (offset : Nat) :
    Yields ctx (place offset [x]) (Skeleton.verbatim (gapAfter prev x.gap f ++ x.text)) := by
  refine (yields_cons (hp _) (yields_nil _)).of_eq ?_
  rw [gap_eq_gapAfter hfits hx, List.append_nil]
  exact List.map_append.symm

/-- Without an index, a fragment is sent as it is. -/
theorem yields_lexemes {f : Fragment} (hindex : f.isIndex = false) {prev : Option Fragment}
    {ctx : Context} (hfits : Fits prev ctx) (gap : List Char) (offset : Nat) :
    Yields ctx (place offset (f.lexemes gap))
      (Skeleton.verbatim (gapAfter prev gap f ++ f.text)) := by
  cases f with
  | index => cases hindex
  | keyword w =>
    have hpieces : ∀ offset next, pieces ctx ((w.name.lexeme gap).token offset) next =
        Skeleton.verbatim w.name.text := by
      intro offset next
      have hkeyword : ((w.name.lexeme gap).token offset).keyword? = some w.keyword := by
        show Keyword.ofWord? w.name.text = _
        rw [w.text_name]
        exact w.isKeyword
      show pathPieces ctx _ next = _
      rw [pathPieces, hkeyword]
      rfl
    have hsingle := yields_single (f := .keyword w) hfits (w.name.lexeme gap) rfl hpieces offset
    rw [show (w.name.lexeme gap).text = w.chars from w.text_name] at hsingle
    exact hsingle
  | call f =>
    have hopen : ∀ ctx offset, Yields ctx (place offset [Expression.openParen []])
        (Skeleton.verbatim ['(']) := by
      intro ctx offset
      refine (yields_cons (pieces_openParen ctx [] _) (yields_nil _)).of_eq ?_
      rw [gap_eq_lead _ _ rfl, show (Expression.openParen []).gap = [] from rfl, lead_nil]
      rfl
    refine (yields_cons_before (pieces_functionName ctx f.toFunctionName gap _ _)
      (hopen _ _)).of_eq ?_
    rw [gap_eq_gapAfter (f := .call f) hfits rfl]
    show Skeleton.verbatim (gapAfter prev gap (.call f)) ++ Skeleton.verbatim f.name.text ++
      Skeleton.verbatim ['('] = Skeleton.verbatim (_ ++ (f.name.text ++ ['(']))
    simp only [Skeleton.verbatim, List.map_append, List.append_assoc]
  | _ => exact yields_single hfits ⟨gap, _, _⟩ rfl (fun _ _ => rfl) offset

theorem blank_gapAfter (prev : Option Fragment) (gap : List Char) (f : Fragment) :
    ∀ c ∈ gapAfter prev gap f, isBlank c = true := by
  unfold gapAfter
  split
  · exact blank_space
  · exact blank_nil

/-- A gap is left out only behind an opening parenthesis and in front of what takes no space. -/
theorem gapAfter_cases (p : Fragment) (gap : List Char) (f : Fragment) :
    gapAfter (some p) gap f = [' '] ∨
      gapAfter (some p) gap f = [] ∧ (p.opens = true ∨ gap = [] ∨ f.closes = true) := by
  unfold gapAfter
  rw [Option.any_some]
  split
  · exact .inl rfl
  · next hnot =>
    refine .inr ⟨rfl, ?_⟩
    cases hopens : p.opens with
    | true => exact .inl rfl
    | false =>
      cases gap with
      | nil => exact .inr (.inl rfl)
      | cons c cs =>
        rw [hopens] at hnot
        exact .inr (.inr (Bool.not_eq_false _ ▸ fun hcloses => hnot (by rw [hcloses]; rfl)))

/-- What is left of a gap is left of what is left. -/
theorem gapAfter_gapAfter (prev : Option Fragment) (gap : List Char) (f : Fragment) :
    gapAfter prev (gapAfter prev gap f) f = gapAfter prev gap f := by
  cases h : prev.any (fun p => !p.opens) && !gap.isEmpty && !f.closes with
  | false =>
    have hnil : gapAfter prev gap f = [] := by
      rw [gapAfter, h]
      rfl
    rw [hnil, gapAfter, List.isEmpty_nil, Bool.not_true, Bool.and_false, Bool.false_and]
    rfl
  | true =>
    have hspace : gapAfter prev gap f = [' '] := by
      rw [gapAfter, h]
      rfl
    rw [Bool.and_eq_true, Bool.and_eq_true] at h
    rw [hspace, gapAfter, h.1.1, h.2]
    rfl

end Fragment

end ItemStore.Expression
