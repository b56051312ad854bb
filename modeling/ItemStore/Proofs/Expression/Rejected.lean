import ItemStore.Proofs.Expression.Partners
import ItemStore.Proofs.Expression.Unterminated

/-
  Which sources have no tokens, and where their fault is. `Met` reads a source from left to right
  and looks at no parentheses: the tokens met, up to the end or to a quote that nothing closes.
  Every source is met in exactly one way (`exists_met`, `Met.unique`).

  `tokenize_rejects`: a source has its tokens if no such quote is met and the parentheses among them
  are balanced. Otherwise the fault is what comes first: a closing parenthesis without a partner, or
  the quote; and where all was read, the last opening parenthesis without a partner.

  The loop matches parentheses while it scans. `Met.tokensFrom_eq` takes the two apart: the tokens
  are met first and then matched, with the same outcome.
-/

namespace ItemStore.Expression

open Text Lexeme

/-! ## What is met -/

/-- The tokens met in a text from left to right, behind a token of a kind and from an offset on, and
the fault that ends them, with its offset. -/
inductive Met : Option TokenKind → Nat → List Char → List Token → Option (Fault × Nat) → Prop
  | blank {prev : Option TokenKind} {offset : Nat} {tail : List Char}
      (htail : ∀ c ∈ tail, isBlank c = true) : Met prev offset tail [] none
  | stuck {prev : Option TokenKind} {offset : Nat} {gap read rest : List Char} {fault : Fault}
      (hgap : ∀ c ∈ gap, isBlank c = true) (h : Unterminated prev read fault rest) :
    Met prev offset (gap ++ (read ++ rest)) [] (some (fault, offset + gap.length + read.length))
  | token {prev : Option TokenKind} {offset : Nat} {x : Lexeme} {rest : List Char}
      {ts : List Token} {stop : Option (Fault × Nat)} (hgap : ∀ c ∈ x.gap, isBlank c = true)
      (hx : x.Scans prev rest)
      (h : Met (some x.kind) (offset + x.gap.length + x.text.length) rest ts stop) :
    Met prev offset (x.gap ++ (x.text ++ rest)) (x.token (offset + x.gap.length) :: ts) stop

/-- Something is met in every text. -/
theorem exists_met (prev : Option TokenKind) (offset : Nat) (cs : List Char) :
    ∃ ts stop, Met prev offset cs ts stop := by
  -- on the length: a token takes at least its first character
  induction hn : cs.length using Nat.strong_induction_on generalizing prev offset cs with
  | _ n ih =>
    have hgap : ∀ c ∈ cs.takeWhile isBlank, isBlank c = true := forall_mem_takeWhile isBlank cs
    have hsplit := List.takeWhile_append_dropWhile (p := isBlank) (l := cs)
    have hstops := stops_dropWhile isBlank cs
    generalize cs.takeWhile isBlank = gap at hgap hsplit
    generalize cs.dropWhile isBlank = after at hsplit hstops
    subst hsplit
    cases after with
    | nil =>
      rw [List.append_nil]
      exact ⟨[], none, .blank hgap⟩
    | cons c after =>
      cases hscan : scanToken (before prev) c after with
      | error e =>
        obtain ⟨fault, rest⟩ := e
        obtain ⟨read, hread, hstuck⟩ := unterminated_of_scanToken hscan
        rw [hread]
        exact ⟨[], _, .stuck hgap hstuck⟩
      | ok r =>
        obtain ⟨kind, rest⟩ := r
        obtain ⟨ds, rfl, -, -⟩ := exists_text_of_scanToken hscan
        have hlt : rest.length < n := by
          rw [← hn, List.length_append, List.length_cons, List.length_append]
          omega
        obtain ⟨ts, stop, hmet⟩ := ih _ hlt (some kind)
          (offset + gap.length + (c :: ds).length) rest rfl
        exact ⟨_, stop, .token (x := ⟨gap, kind, c :: ds⟩) hgap
          ⟨c, ds, rfl, stops_cons.mp hstops, hscan⟩ hmet⟩

/-- White space in front of a character that is none ends at that character. -/
theorem gap_unique {gap gap' : List Char} {c c' : Char} {cs cs' : List Char}
    (heq : gap ++ c :: cs = gap' ++ c' :: cs') (hgap : ∀ d ∈ gap, isBlank d = true)
    (hgap' : ∀ d ∈ gap', isBlank d = true) (hc : isBlank c = false) (hc' : isBlank c' = false) :
    gap = gap' ∧ c = c' ∧ cs = cs' := by
  obtain ⟨hgaps, hrests⟩ := run_unique heq hgap hgap' (stops_cons.mpr hc) (stops_cons.mpr hc')
  exact ⟨hgaps, (List.cons.inj hrests).1, (List.cons.inj hrests).2⟩

/-- A text with a character that is no white space is not blank. -/
theorem not_blank_append {gap cs : List Char} {c : Char} (hc : isBlank c = false) :
    ¬∀ d ∈ gap ++ c :: cs, isBlank d = true := by
  intro h
  have hblank := h c (List.mem_append_right _ List.mem_cons_self)
  rw [hc] at hblank
  cases hblank

/-- Nothing is met in white space. -/
theorem Met.of_blank {prev : Option TokenKind} {offset : Nat} {cs : List Char} {ts : List Token}
    {stop : Option (Fault × Nat)} (h : Met prev offset cs ts stop)
    (hcs : ∀ c ∈ cs, isBlank c = true) : ts = [] ∧ stop = none := by
  cases h with
  | blank => exact ⟨rfl, rfl⟩
  | stuck hgap hstuck =>
    obtain ⟨c, cs, hread, hc, -⟩ := hstuck.scanToken_eq
    rw [hread] at hcs
    exact absurd hcs (not_blank_append hc)
  | token hgap hx =>
    obtain ⟨c, cs, htext, hc, -⟩ := hx
    rw [htext] at hcs
    exact absurd hcs (not_blank_append hc)

/-- What is met behind white space is decided by the scan from there. -/
theorem Met.scan_cases {prev : Option TokenKind} {offset : Nat} {gap cs : List Char} {c : Char}
    {ts : List Token} {stop : Option (Fault × Nat)} (h : Met prev offset (gap ++ c :: cs) ts stop)
    (hgap : ∀ d ∈ gap, isBlank d = true) (hc : isBlank c = false) :
    (∃ fault read rest, c :: cs = read ++ rest ∧
        scanToken (before prev) c cs = .error (fault, rest) ∧ ts = [] ∧
        stop = some (fault, offset + gap.length + read.length)) ∨
      ∃ kind ds rest us, cs = ds ++ rest ∧ scanToken (before prev) c cs = .ok (kind, rest) ∧
        ts = Lexeme.token ⟨gap, kind, c :: ds⟩ (offset + gap.length) :: us ∧
        Met (some kind) (offset + gap.length + (c :: ds).length) rest us stop := by
  generalize hsource : gap ++ c :: cs = source at h
  cases h with
  | blank htail =>
    rw [← hsource] at htail
    exact absurd htail (not_blank_append hc)
  | @stuck _ _ gap' read rest fault hgap' hstuck =>
    obtain ⟨c', cs', hread, hc', hscan⟩ := hstuck.scanToken_eq
    rw [hread] at hsource
    obtain ⟨rfl, rfl, rfl⟩ := gap_unique hsource hgap hgap' hc hc'
    exact .inl ⟨fault, read, rest, hread.symm, hscan, rfl, rfl⟩
  | @token _ _ x rest us _ hgap' hx hmet =>
    obtain ⟨gap', kind, text⟩ := x
    obtain ⟨c', ds, htext, hc', hscan⟩ := hx
    obtain rfl : text = c' :: ds := htext
    obtain ⟨rfl, rfl, rfl⟩ := gap_unique hsource hgap hgap' hc hc'
    exact .inr ⟨kind, ds, rest, us, rfl, hscan, rfl, hmet⟩

/-- One thing only is met. -/
theorem Met.unique {prev : Option TokenKind} {offset : Nat} {cs : List Char}
    {ts ts' : List Token} {stop stop' : Option (Fault × Nat)} (h : Met prev offset cs ts stop)
    (h' : Met prev offset cs ts' stop') : ts' = ts ∧ stop' = stop := by
  induction h generalizing ts' stop' with
  | blank htail => exact h'.of_blank htail
  | @stuck _ _ gap read rest fault hgap hstuck =>
    obtain ⟨c, cs, hread, hc, hscan⟩ := hstuck.scanToken_eq
    rw [hread] at h'
    rcases h'.scan_cases hgap hc with
      ⟨_, read', _, hread', hscan', rfl, rfl⟩ | ⟨_, _, _, _, -, hscan', -⟩
    · cases hscan.symm.trans hscan'
      rw [List.append_cancel_right (hread.trans hread')]
      exact ⟨rfl, rfl⟩
    · cases hscan.symm.trans hscan'
  | @token _ _ x rest ts stop hgap hx hmet ih =>
    obtain ⟨gap, kind, text⟩ := x
    obtain ⟨c, ds, htext, hc, hscan⟩ := hx
    obtain rfl : text = c :: ds := htext
    rcases h'.scan_cases hgap hc with
      ⟨_, _, _, -, hscan', -⟩ | ⟨kind', ds', rest', us, hsplit, hscan', rfl, hmet'⟩
    · cases hscan.symm.trans hscan'
    · obtain ⟨rfl, rfl⟩ := Prod.mk.inj (Except.ok.inj (hscan.symm.trans hscan'))
      obtain rfl := List.append_cancel_right hsplit
      obtain ⟨rfl, rfl⟩ := ih hmet'
      exact ⟨rfl, rfl⟩

/-- What ends the tokens is a quote. -/
theorem Met.fault_cases {prev : Option TokenKind} {offset place : Nat} {cs : List Char}
    {ts : List Token} {fault : Fault} (h : Met prev offset cs ts (some (fault, place))) :
    fault = .unclosedText ∨ fault = .unclosedName := by
  generalize hstop : some (fault, place) = stop at h
  induction h with
  | blank => cases hstop
  | stuck hgap hstuck =>
    cases hstop
    cases hstuck with
    | text => exact .inl rfl
    | name => exact .inr rfl
    | step => exact .inr rfl
  | token hgap hx hmet ih => exact ih hstop

/-! ## Matching what is met -/

/-- The tokens that were met, if they match all their parentheses with those open before them, or
the first fault. -/
def matched (opened : List Nat) (ts : List Token) (stop : Option (Fault × Nat)) :
    Except (Fault × Nat) (List Token) :=
  match openedAfter opened ts with
  | .error offset => .error (.unmatchedClose, offset)
  | .ok left =>
    match stop, left with
    | some e, _ => .error e
    | none, [] => .ok ts
    | none, offset :: _ => .error (.unmatchedOpen, offset)

theorem matched_cons {opened opened' : List Nat} {t : Token}
    (h : matchParens t.kind t.offset opened = some opened') (ts : List Token)
    (stop : Option (Fault × Nat)) :
    matched opened (t :: ts) stop = (matched opened' ts stop).map (t :: ·) := by
  unfold matched
  rw [openedAfter_of_some h]
  cases openedAfter opened' ts with
  | error offset => rfl
  | ok opened₁ =>
    cases stop with
    | some e => rfl
    | none => cases opened₁ <;> rfl

/-- The loop finds what comes of matching the tokens that are met. -/
theorem Met.tokensFrom_eq {kind : Option TokenKind} {offset : Nat} {cs : List Char}
    {ts : List Token} {stop : Option (Fault × Nat)} (h : Met kind offset cs ts stop)
    {prev : Option Token} (hprev : prev.map Token.kind = kind) (opened : List Nat) :
    tokensFrom prev opened false offset cs = matched opened ts stop := by
  induction h generalizing prev opened with
  | @blank kind offset tail htail =>
    rw [← List.append_nil tail, tokensFrom_gap htail]
    unfold matched
    cases opened with
    | nil => rw [tokensFrom]; rfl
    | cons paren outer => rw [tokensFrom]; rfl
  | @stuck kind offset gap read rest fault hgap hstuck =>
    obtain ⟨c, cs, hcs, hc, hscan⟩ := hstuck.scanToken_eq
    rw [← hprev, ← scanToken_eq_before] at hscan
    rw [tokensFrom_gap hgap, hcs, tokensFrom_stuck _ _ _ hc hscan, ← hcs, List.length_append,
      Nat.add_sub_cancel]
    rfl
  | @token kind offset x rest ts stop hgap hx hmet ih =>
    obtain ⟨c, cs, hcs, hc, hscan⟩ := hx
    rw [← hprev, ← scanToken_eq_before] at hscan
    rw [tokensFrom_gap hgap, hcs]
    cases hmatch : matchParens x.kind (offset + x.gap.length) opened with
    | none =>
      have hrun := openedAfter_of_none (t := x.token (offset + x.gap.length)) hmatch ts
      rw [List.cons_append, tokensFrom_unmatched _ hc hscan hmatch]
      unfold matched
      rw [hrun]
      rfl
    | some opened' =>
      rw [tokensFrom_cons prev _ _ hc hscan hmatch, ← hcs, Bool.false_or]
      have hkind : (some (x.token (offset + x.gap.length))).map Token.kind = some x.kind := rfl
      have hrest := ih hkind opened'
      rw [matched_cons (t := x.token (offset + x.gap.length)) hmatch]
      exact congrArg _ hrest

/-! ## The first fault -/

/-- The fault of tokens that were met up to a stop, and its offset. -/
inductive Rejects (ts : List Token) (stop : Option (Fault × Nat)) : Fault → Nat → Prop
  | unmatchedClose {offset : Nat} (h : FirstUnopened ts offset) :
    Rejects ts stop .unmatchedClose offset
  | unterminated {fault : Fault} {offset : Nat} (hopened : AllOpened ts)
      (hstop : stop = some (fault, offset)) : Rejects ts stop fault offset
  | unmatchedOpen {offset : Nat} (hopened : AllOpened ts) (hstop : stop = none)
      (h : LastUnclosed ts offset) : Rejects ts stop .unmatchedOpen offset

theorem matched_eq_ok_iff {ts ts' : List Token} {stop : Option (Fault × Nat)} :
    matched [] ts stop = .ok ts' ↔ ts' = ts ∧ stop = none ∧ Balanced (parens ts) := by
  rw [← openedAfter_eq_nil_iff]
  unfold matched
  constructor
  · intro h
    split at h
    · cases h
    next hrun =>
    split at h
    · cases h
    · cases h
      exact ⟨rfl, rfl, hrun⟩
    · cases h
  · rintro ⟨rfl, rfl, hrun⟩
    rw [hrun]

theorem allOpened_iff {ts : List Token} :
    AllOpened ts ↔ ∃ opened, openedAfter [] ts = .ok opened := by
  constructor
  · intro h
    cases hrun : openedAfter [] ts with
    | ok opened => exact ⟨opened, rfl⟩
    | error offset =>
      obtain ⟨before, t, after, rfl, ht, -, hnot, -⟩ := openedAfter_eq_error_iff.mp hrun
      exact absurd (h before t after rfl ht) hnot
  · rintro ⟨opened, h⟩
    exact allOpened_of_openedAfter h

theorem matched_eq_error_iff {ts : List Token} {stop : Option (Fault × Nat)} {fault : Fault}
    {offset : Nat} :
    matched [] ts stop = .error (fault, offset) ↔ Rejects ts stop fault offset := by
  unfold matched
  constructor
  · intro h
    split at h
    · next hrun =>
      cases h
      exact .unmatchedClose (openedAfter_eq_error_iff.mp hrun)
    next hrun =>
    split at h
    · cases h
      exact .unterminated (allOpened_iff.mpr ⟨_, hrun⟩) rfl
    · cases h
    · cases h
      obtain ⟨hopened, hlast⟩ := exists_openedAfter_iff.mp ⟨_, hrun⟩
      exact .unmatchedOpen hopened rfl hlast
  · intro h
    cases h with
    | unmatchedClose h => rw [openedAfter_eq_error_iff.mpr h]
    | unterminated hopened hstop =>
      obtain ⟨opened, hrun⟩ := allOpened_iff.mp hopened
      rw [hrun, hstop]
    | unmatchedOpen hopened hstop h =>
      obtain ⟨outer, hrun⟩ := exists_openedAfter_iff.mpr ⟨hopened, h⟩
      rw [hrun, hstop]

section Tokenize

variable {source : List Char} {ts : List Token} {stop : Option (Fault × Nat)}

/-- The tokens of a source are those met in it, if they match. -/
theorem Met.tokenize_eq (h : Met none 0 source ts stop) :
    tokenize source = (matched [] ts stop).mapError fun e => ⟨e.1, source, e.2⟩ := by
  have hmatched : tokensFrom none [] false 0 source = _ := h.tokensFrom_eq rfl []
  rw [tokenize, hmatched]
  cases matched [] ts stop <;> rfl

theorem Met.tokenize_eq_ok_iff (h : Met none 0 source ts stop) {ts' : List Token} :
    tokenize source = .ok ts' ↔ ts' = ts ∧ stop = none ∧ Balanced (parens ts) := by
  rw [h.tokenize_eq, ← matched_eq_ok_iff]
  cases matched [] ts stop <;> simp [Except.mapError]

theorem Met.tokenize_eq_error_iff (h : Met none 0 source ts stop) {e : Error} :
    tokenize source = .error e ↔ e.source = source ∧ Rejects ts stop e.fault e.offset := by
  rw [h.tokenize_eq, ← matched_eq_error_iff]
  cases matched [] ts stop with
  | ok found => simp [Except.mapError]
  | error found =>
    constructor
    · intro he
      cases he
      exact ⟨rfl, rfl⟩
    · rintro ⟨rfl, he⟩
      cases he
      rfl

/-- What is told of a source is never that a name is missing. -/
theorem Met.not_missingName {fault : Fault} {offset : Nat} (h : Met none 0 source ts stop)
    (hr : Rejects ts stop fault offset) (place : Nat) : fault ≠ .missingName place := by
  rintro rfl
  cases hr with
  | unterminated hopened hstop =>
    rw [hstop] at h
    rcases h.fault_cases with hfault | hfault
    · cases hfault
    · cases hfault

end Tokenize

/-- One thing is met in a source. It has its tokens exactly if no quote that nothing closes is met
and the parentheses among the tokens are balanced. Otherwise the one fault and its offset are those
of the first closing parenthesis without a partner, else of the quote, else of the last opening
parenthesis without one; an attribute name is never missing. -/
theorem tokenize_rejects (source : List Char) :
    ∃ ts stop, Met none 0 source ts stop ∧
      (∀ ts' stop', Met none 0 source ts' stop' → ts' = ts ∧ stop' = stop) ∧
      (∀ ts', tokenize source = .ok ts' ↔ ts' = ts ∧ stop = none ∧ Balanced (parens ts)) ∧
      (∀ e, tokenize source = .error e ↔ e.source = source ∧ Rejects ts stop e.fault e.offset) ∧
      ∀ e, tokenize source = .error e →
        e.toFailure = .compile e.fault.message (String.ofList source) (some e.offset) ∧
          ∀ offset, e.fault ≠ .missingName offset := by
  obtain ⟨ts, stop, hmet⟩ := exists_met none 0 source
  refine ⟨ts, stop, hmet, fun ts' stop' h' => hmet.unique h',
    fun ts' => hmet.tokenize_eq_ok_iff, fun e => hmet.tokenize_eq_error_iff, ?_⟩
  intro e he
  obtain ⟨hsource, hfault⟩ := hmet.tokenize_eq_error_iff.mp he
  exact ⟨by rw [Error.toFailure, hsource], hmet.not_missingName hfault⟩

/-- The first of two parentheses too many comes before a name that nothing closes; such a name comes
before parentheses that are left open; and of these the last is told, with one in a text, one in a
name and one in a binary text left out. -/
theorem tokenize_rejects_first :
    (∃ ts stop, Met none 0 "(a = ')' ) ) ) AND b.`c".toList ts stop ∧
      Rejects ts stop .unmatchedClose 11) ∧
    (∃ ts stop, Met none 0 "size((a-b[0].`c) < 2".toList ts stop ∧
      Rejects ts stop .unclosedName 13) ∧
    ∃ ts stop, Met none 0 "((a) = `(` AND (b IN ('(', <(>)".toList ts stop ∧
      Rejects ts stop .unmatchedOpen 15 := by
  have hclose : tokenize "(a = ')' ) ) ) AND b.`c".toList =
      .error ⟨.unmatchedClose, "(a = ')' ) ) ) AND b.`c".toList, 11⟩ :=
    eq_error_of_any (by decide +kernel)
  have hname : tokenize "size((a-b[0].`c) < 2".toList =
      .error ⟨.unclosedName, "size((a-b[0].`c) < 2".toList, 13⟩ :=
    eq_error_of_any (by decide +kernel)
  have hopen : tokenize "((a) = `(` AND (b IN ('(', <(>)".toList =
      .error ⟨.unmatchedOpen, "((a) = `(` AND (b IN ('(', <(>)".toList, 15⟩ :=
    eq_error_of_any (by decide +kernel)
  refine ⟨?_, ?_, ?_⟩
  · obtain ⟨ts, stop, hmet, -, -, hiff, -⟩ := tokenize_rejects "(a = ')' ) ) ) AND b.`c".toList
    exact ⟨ts, stop, hmet, ((hiff _).mp hclose).2⟩
  · obtain ⟨ts, stop, hmet, -, -, hiff, -⟩ := tokenize_rejects "size((a-b[0].`c) < 2".toList
    exact ⟨ts, stop, hmet, ((hiff _).mp hname).2⟩
  · obtain ⟨ts, stop, hmet, -, -, hiff, -⟩ :=
      tokenize_rejects "((a) = `(` AND (b IN ('(', <(>)".toList
    exact ⟨ts, stop, hmet, ((hiff _).mp hopen).2⟩

end ItemStore.Expression
