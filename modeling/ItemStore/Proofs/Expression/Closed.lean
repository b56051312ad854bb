import ItemStore.Proofs.Expression.Barriers
import ItemStore.Proofs.Expression.Naming
import ItemStore.Proofs.Expression.Placeholders
import ItemStore.Proofs.Expression.Tokenization

/-
  Compiled expressions are closed, in either grammar (`compile_closed`): the placeholders found in
  one are its own, each once and in the order of their numbers, and those that its source has.

  What is found in a skeleton that is filled is known. Here it is shown that what a skeleton has
  outside its holes is from the source (`sublist_written`). Text is sent as it is, or a hole stands
  for it, with nothing behind the hole that has a mark (`Replaces`); and what ends a word in the
  source ends it in the skeleton too (`word_skeletonFrom`).

  Two things are left out, and `not_compile_closed` shows that they have to be. A word directly
  behind a literal would go on with the literal's placeholder. And a placeholder in the source can
  be one that is generated: the start is there to keep them apart.
-/

namespace ItemStore.Expression

open Text Lexeme

/-! ## Text without quotes -/

/-- A character of a path without quotes, or of a number. -/
def isPathChar (c : Char) : Bool :=
  continuesPath c || c == ']'

/-- A text has no other characters than a path without quotes has. -/
def PathText (cs : List Char) : Prop :=
  ∀ c ∈ cs, isPathChar c = true

theorem isPathChar_of_isWord {c : Char} (h : isWord c = true) : isPathChar c = true := by
  rw [isPathChar, continuesPath, continuesSegment, h]
  rfl

theorem PathText.markless {cs : List Char} (h : PathText cs) : Markless cs :=
  fun c hc => isMark_of_class (by decide +kernel) (by decide +kernel) (h c hc)

theorem pathText_cons {c : Char} {cs : List Char} :
    PathText (c :: cs) ↔ isPathChar c = true ∧ PathText cs :=
  List.forall_mem_cons

theorem PathText.append {cs ds : List Char} (hc : PathText cs) (hd : PathText ds) :
    PathText (cs ++ ds) :=
  List.forall_mem_append.mpr ⟨hc, hd⟩

theorem pathText_flatMap {β : Type} {f : β → List Char} {ys : List β}
    (h : ∀ y ∈ ys, PathText (f y)) : PathText (ys.flatMap f) := by
  intro c hc
  obtain ⟨y, hy, hc⟩ := List.mem_flatMap.mp hc
  exact h y hy c hc

theorem pathText_word (w : Word) : PathText w.chars :=
  fun c hc => isPathChar_of_isWord (w.isWord_of_mem c hc)

theorem pathText_digits (d : Digits) : PathText d.chars :=
  fun c hc => isPathChar_of_isWord (isWord_of_isDigit (d.isDigit_of_mem c hc))

theorem pathText_indexes (ds : List Digits) : PathText (Digits.indexes ds) :=
  pathText_flatMap fun d _ => pathText_cons.mpr ⟨by decide +kernel,
    (pathText_digits d).append (pathText_cons.mpr ⟨by decide +kernel, nofun⟩)⟩

theorem pathText_plainName (n : PlainName) : PathText n.text :=
  (pathText_word n.head).append
    (pathText_flatMap fun p _ => pathText_cons.mpr ⟨by decide +kernel, pathText_word p.toWord⟩)

theorem pathText_numeral (n : Numeral) : PathText n.text := by
  have hunsigned : PathText n.unsigned := by
    rw [Numeral.unsigned]
    split
    · exact pathText_digits n.whole
    · next f _ =>
      exact (pathText_digits n.whole).append
        (pathText_cons.mpr ⟨by decide +kernel, pathText_digits f⟩)
  rw [Numeral.text]
  split
  · exact pathText_cons.mpr ⟨by decide +kernel, hunsigned⟩
  · exact hunsigned

/-- A step that is not quoted has no character that only quotes allow. -/
theorem pathText_step {s : Step} (h : s.segment.quoted = false) : PathText s.text := by
  obtain ⟨name, ds⟩ := s
  cases name with
  | plain n => exact (pathText_plainName n).append (pathText_indexes ds)
  | quoted => cases h

theorem pathText_steps {s : Step} {ss : List Step}
    (h : (s.segment :: ss.map Step.segment).any (·.quoted) = false) :
    PathText (s.text ++ Step.pointed ss) := by
  rw [List.any_cons, Bool.or_eq_false_iff, List.any_eq_false] at h
  refine (pathText_step h.1).append
    (pathText_flatMap fun t ht => pathText_cons.mpr ⟨by decide +kernel, ?_⟩)
  exact pathText_step (Bool.not_eq_true _ ▸ h.2 _ (List.mem_map_of_mem ht))

theorem markless_singleton {c : Char} (h : isMark c = false) : Markless [c] :=
  markless_cons.mpr ⟨h, nofun⟩

/-! ## What replaces a literal or a path -/

namespace Skeleton

/-- What stands for a literal or a path: a hole, with text behind it that has no mark. -/
structure Replaces (ps : Skeleton) : Prop where
  hole : ∃ p rest, ps = p :: rest ∧ ∀ c, p ≠ .char c
  unmarked : Unmarked ps

theorem Replaces.word_append {ps : Skeleton} (h : Replaces ps) (qs : Skeleton) :
    word (ps ++ qs) = [] := by
  obtain ⟨p, rest, rfl, hp⟩ := h.hole
  cases p with
  | char c => exact absurd rfl (hp c)
  | name => rfl
  | value => rfl

theorem replaces_value (l : Literal) : Replaces [.value l] :=
  ⟨⟨_, _, rfl, nofun⟩, nofun⟩

theorem unmarked_ofSegment (s : Step) : Unmarked (ofSegment s.segment) := by
  intro c hc
  rcases List.mem_cons.mp hc with hc | hc
  · cases hc
  · exact unmarked_verbatim (pathText_indexes s.indexes).markless c hc

theorem replaces_ofPath (s : Step) (ss : List Step) :
    Replaces (ofPath (s.segment :: ss.map Step.segment)) := by
  induction ss generalizing s with
  | nil => exact ⟨⟨_, _, rfl, nofun⟩, unmarked_ofSegment s⟩
  | cons t ts ih =>
    refine ⟨⟨_, _, rfl, nofun⟩, (unmarked_ofSegment s).append fun c hc => ?_⟩
    rcases List.mem_cons.mp hc with hc | hc
    · rw [Piece.char.inj hc]
      rfl
    · exact (ih t).unmarked c hc

end Skeleton

/-! ## Literals that name their types -/

namespace Tagged

open Skeleton

theorem replaces_literal {k : Constructor} {payload source : List Char} {offset : Nat}
    {ps : Skeleton} (h : literal k payload source offset = .ok ps) : Replaces ps := by
  unfold literal at h
  split at h
  case h_9 =>
    split at h
    · next segments hpath =>
      cases h
      unfold pathOf at hpath
      dsimp only at hpath
      split at hpath
      · cases hpath
      · split at hpath
        · next segments' hscan =>
          cases hpath
          obtain ⟨s, ss, rfl, -⟩ := scanPath_sound hscan
          exact replaces_ofPath s ss
        all_goals cases hpath
    · cases h
  case h_5 =>
    split at h
    · cases h
      exact replaces_value _
    · cases h
  all_goals
    cases h
    exact replaces_value _

theorem opener?_of_isWord {c : Char} (h : isWord c = true) (cs : List Char) :
    opener? (some c) cs = none := by
  rw [opener?, Option.any_some, h, Bool.true_or, if_pos rfl]

/-- A tag goes on with no word, and what is no tag goes on as the source does. -/
theorem word_skeletonFrom {source cs : List Char} {prev : Option Char} {offset : Nat}
    {ps : Skeleton} (h : skeletonFrom source prev offset cs = .ok ps) :
    word ps = if (opener? prev cs).isSome then [] else cs.takeWhile isWord := by
  fun_induction skeletonFrom source prev offset cs generalizing ps with
  | case1 =>
    cases h
    exact (ite_self _).symm
  | case2 prev offset c cs hopener ps' hps ih =>
    cases h
    rw [hopener, word, ih hps, List.takeWhile_cons]
    cases hc : isWord c with
    | false => rfl
    | true =>
      rw [opener?_of_isWord hc]
      rfl
  | case3 => cases h
  | case4 => cases h
  | case5 => cases h
  | case6 prev offset c cs k inner hopener payload rest hp h₁ h₂ pieces hpieces ps' hps ih =>
    cases h
    rw [hopener, (replaces_literal hpieces).word_append]
    rfl
  | case7 => cases h

theorem payload?_suffix {depth : Nat} {cs payload rest : List Char}
    (h : payload? depth cs = some (payload, rest)) : rest <:+ cs := by
  fun_induction payload? depth cs generalizing payload rest with
  | case1 => cases h
  | case3 cs =>
    cases h
    exact List.suffix_cons _ _
  | _ =>
    next ih =>
    obtain ⟨r, hr, he⟩ := Option.map_eq_some_iff.mp h
    cases he
    exact (ih hr).trans (List.suffix_cons _ _)

theorem opener?_suffix {prev : Option Char} {cs rest : List Char} {k : Constructor}
    (h : opener? prev cs = some (k, rest)) : rest <:+ cs := by
  unfold opener? at h
  split at h
  · cases h
  · obtain ⟨k', -, hk⟩ := List.exists_of_findSome?_eq_some h
    obtain ⟨r, hr, he⟩ := Option.map_eq_some_iff.mp hk
    cases he
    exact ⟨_, append_eq_of_after? hr⟩

/-- What stands outside the holes is from the source. -/
theorem sublist_written {source cs : List Char} {prev : Option Char} {offset : Nat}
    {ps : Skeleton} (h : skeletonFrom source prev offset cs = .ok ps) :
    (written ps).Sublist (placeholdersIn cs) := by
  fun_induction skeletonFrom source prev offset cs generalizing ps with
  | case1 =>
    cases h
    exact List.Sublist.refl _
  | case2 prev offset c cs hopener ps' hps ih =>
    cases h
    have hword := word_skeletonFrom hps
    rw [written, placeholdersIn, startsWord_eq]
    split at hword
    · -- a tag directly behind a mark leaves no placeholder there
      rw [hword, List.isEmpty_nil, Bool.not_true, Bool.and_false, if_neg Bool.false_ne_true]
      split
      · exact (ih hps).cons _
      · exact ih hps
    · rw [hword]
      split
      · exact (ih hps).cons_cons _
      · exact ih hps
  | case3 => cases h
  | case4 => cases h
  | case5 => cases h
  | case6 prev offset c cs k inner hopener payload rest hp h₁ h₂ pieces hpieces ps' hps ih =>
    cases h
    rw [(replaces_literal hpieces).unmarked.written_append]
    exact (ih hps).trans
      (sublist_placeholdersIn ((payload?_suffix hp).trans (opener?_suffix hopener)))
  | case7 => cases h

end Tagged

namespace Skeleton

theorem exists_char_of_isBlankPiece {p : Piece} (h : isBlankPiece p = true) :
    ∃ c, p = .char c ∧ isBlank c = true := by
  cases p with
  | char c => exact ⟨c, rfl, h⟩
  | name => cases h
  | value => cases h

/-- White space at the ends is no part of a placeholder. -/
theorem written_trim (ps : Skeleton) : written ps.trim = written ps := by
  obtain ⟨front, back, hfront, hback, hps⟩ := exists_trim isBlankPiece ps
  have hunmarked : ∀ qs : Skeleton, (∀ p ∈ qs, isBlankPiece p = true) → Unmarked qs := by
    intro qs hqs c hc
    exact isMark_of_isBlank (hqs (.char c) hc)
  have hword : word back = [] := by
    cases back with
    | nil => rfl
    | cons p back =>
      obtain ⟨c, rfl, hc⟩ := exists_char_of_isBlankPiece (hback p List.mem_cons_self)
      rw [word, isWord_of_isBlank hc]
      rfl
  have hnone : written back = [] := by
    have h := (hunmarked back hback).written_append []
    rw [List.append_nil] at h
    exact h
  calc written ps.trim
      = written (front ++ ps.trim ++ back) := by
        rw [List.append_assoc, (hunmarked front hfront).written_append, written_append hword, hnone,
          List.append_nil]
    _ = written ps := congrArg written hps.symm

end Skeleton

/-! ## Literals with inferred types -/

namespace Inferred

open Skeleton

/-- A mark is read with the word behind it, if there is one. -/
theorem scanToken_of_isMark (prev : Option Token) {c : Char} (hc : isMark c = true)
    (cs : List Char) : scanToken prev c cs =
      .ok (if startsWord cs then .placeholder else .other, cs.dropWhile isWord) := by
  have hne : ∀ d, isMark d = false → c ≠ d := fun d => ne_of_class hc
  have hword : isWord c = false := by
    rw [← Bool.not_eq_true]
    intro hw
    rw [isMark_of_isWord hw] at hc
    cases hc
  have hdigit : isDigit c = false := by
    rw [← Bool.not_eq_true] at hword ⊢
    exact fun hd => hword (isWord_of_isDigit hd)
  have hoperator : scanOperator (c :: cs) = none := by
    have hsigns : ∀ d ∈ ['=', '<', '>', '+', '-'], isMark d = false :=
      forall_mem_of_all (by decide)
    exact scanOperator_of_ne (fun d hd => hne d (hsigns d hd)) cs
  have hsign : ¬(c = '(' ∨ c = ')' ∨ c = ',') := by
    rintro (h | h | h)
    all_goals exact hne _ rfl h
  have hmark : (c == '#' || c == ':') = true := hc
  rw [scanToken, if_neg (hne _ rfl), scanNumberAfter_of_ne (hne _ rfl)
    (scanNumber_of_not_isDigit hdigit cs), scanBinary_of_ne (hne _ rfl), hoperator]
  cases hstarts : startsWord cs with
  | true =>
    refine scanWordOrSign_placeholder hsign ?_
    rw [scanPlaceholder, hmark, hstarts]
    rfl
  | false =>
    have hstops : Stops isWord cs := by
      rw [startsWord_eq, Bool.not_eq_false', List.isEmpty_iff] at hstarts
      exact stops_of_takeWhile hstarts
    rw [dropWhile_of_stops hstops]
    refine scanWordOrSign_other hsign ?_ ?_
    · rw [scanPlaceholder, hmark, hstarts]
      rfl
    · rw [startsSegment, isNameQuote, hword, beq_eq_false_iff_ne.mpr (hne _ rfl),
        beq_eq_false_iff_ne.mpr (hne _ rfl)]
      rfl

/-- A path of one bare word has no quotes. -/
theorem not_quoted_of_bareWord? {t : Token} (h : t.bareWord?.isSome = true) :
    t.segments.any (·.quoted) = false := by
  unfold Token.bareWord? at h
  split at h
  · next hkind =>
    rw [Token.segments, hkind]
    rfl
  · cases h

theorem bareWord?_of_keyword? {t : Token} (h : t.keyword?.isSome = true) :
    t.bareWord?.isSome = true := by
  rw [Token.keyword?] at h
  cases hword : t.bareWord? with
  | none =>
    rw [hword] at h
    cases h
  | some word => rfl

/-- A quoted path is a name wherever it stands. -/
theorem isNamePosition_of_quoted {t : Token} (h : t.segments.any (·.quoted) = true)
    (ctx : Context) (next : Option Token) : isNamePosition ctx t next = true := by
  have hword : t.bareWord?.isSome = false := by
    rw [← Bool.not_eq_true]
    intro hword
    rw [not_quoted_of_bareWord? hword] at h
    cases h
  rw [isNamePosition, isFunctionName, hword, h]
  rfl

/-- A path is sent as it is, and then no segment of it is quoted; or it becomes the literal that its
word is, or names for its segments. -/
theorem pathPieces_cases (ctx : Context) (t : Token) (next : Option Token) :
    (pathPieces ctx t next = verbatim t.text ∧ t.segments.any (·.quoted) = false) ∨
      (∃ w l, wordLiteral? w = some l ∧ pathPieces ctx t next = [.value l]) ∨
      pathPieces ctx t next = ofPath t.segments := by
  rw [pathPieces]
  split
  · next hk => exact .inl ⟨rfl, not_quoted_of_bareWord? (bareWord?_of_keyword? hk)⟩
  · split
    · next l hliteral =>
      rw [literalAt] at hliteral
      split at hliteral
      · obtain ⟨w, -, hw⟩ := Option.bind_eq_some_iff.mp hliteral
        exact .inr (.inl ⟨w, l, hw, rfl⟩)
      · cases hliteral
    · split
      · exact .inr (.inr rfl)
      · next hposition =>
        refine .inl ⟨rfl, ?_⟩
        rw [← Bool.not_eq_true]
        exact fun h => hposition (isNamePosition_of_quoted h ctx next)

/-- A token is sent as it is, or a hole stands for it. What is sent without a mark in front has no
mark at all. -/
theorem pieces_cases {x : Lexeme} (h : x.kind.Reads x.text) (ctx : Context) (offset : Nat)
    (next : Option Token) :
    Replaces (pieces ctx (x.token offset) next) ∨
      (pieces ctx (x.token offset) next = verbatim x.text ∧
        ((∃ c ∈ x.text.head?, isMark c = true) ∨ Markless x.text)) := by
  obtain ⟨gap, kind, text⟩ := x
  cases kind with
  | string payload => exact .inl (replaces_value _)
  | binary payload => exact .inl (replaces_value _)
  | number =>
    obtain ⟨n, rfl⟩ : ∃ n : Numeral, text = n.text := h
    rw [pieces]
    dsimp only [Lexeme.token]
    split
    · exact .inl (replaces_value _)
    · exact .inr ⟨rfl, .inr (pathText_numeral n).markless⟩
  | operator =>
    have hoperators : operators.all (fun op => op.all fun c => !isMark c) = true := by decide
    have htext := List.all_eq_true.mp (List.all_eq_true.mp hoperators text h)
    exact .inr ⟨rfl, .inr fun c hc => Bool.not_eq_true' _ ▸ htext c hc⟩
  | openParen => exact .inr ⟨rfl, .inr (h ▸ markless_singleton rfl)⟩
  | closeParen => exact .inr ⟨rfl, .inr (h ▸ markless_singleton rfl)⟩
  | comma => exact .inr ⟨rfl, .inr (h ▸ markless_singleton rfl)⟩
  | placeholder =>
    obtain ⟨mark, w, hmark, rfl⟩ : ∃ (mark : Char) (w : Word), isMark mark = true ∧
      text = mark :: w.chars := h
    exact .inr ⟨rfl, .inl ⟨mark, rfl, hmark⟩⟩
  | path segments =>
    obtain ⟨s, ss, rfl, rfl⟩ : ∃ (s : Step) (ss : List Step),
      segments = s.segment :: ss.map Step.segment ∧ text = s.text ++ Step.pointed ss := h
    rw [pieces]
    dsimp only [Lexeme.token]
    rcases pathPieces_cases ctx (Lexeme.token ⟨gap, _, _⟩ offset) next with
      ⟨hp, hquoted⟩ | ⟨w, l, -, hp⟩ | hp
    · exact .inr ⟨hp, .inr (pathText_steps hquoted).markless⟩
    · exact .inl (hp ▸ replaces_value l)
    · exact .inl (hp ▸ replaces_ofPath s ss)
  | other =>
    obtain ⟨c, rfl⟩ : ∃ c, text = [c] := h
    cases hc : isMark c with
    | false => exact .inr ⟨rfl, .inr (markless_singleton hc)⟩
    | true => exact .inr ⟨rfl, .inl ⟨c, rfl, hc⟩⟩

/-- Behind a text that no word goes on, a token starts with no word. -/
theorem word_pieces {x : Lexeme} (h : x.kind.Reads x.text) {c : Char} {cs : List Char}
    (htext : x.text = c :: cs) (hc : isWord c = false) (ctx : Context) (offset : Nat)
    (next : Option Token) (qs : Skeleton) :
    word (pieces ctx (x.token offset) next ++ qs) = [] := by
  rcases pieces_cases h ctx offset next with hp | ⟨hp, -⟩
  · exact hp.word_append qs
  · rw [hp, htext]
    show (if isWord c then _ else []) = _
    rw [hc]
    rfl

/-- A token that takes no space in front starts with no word. -/
theorem isWord_of_not_takesSpace {kind : TokenKind} {c : Char} {cs : List Char}
    (h : kind.Reads (c :: cs)) (hk : takesSpace kind = false) : isWord c = false := by
  cases kind with
  | closeParen =>
    rw [(List.cons.inj (show c :: cs = [')'] from h)).1]
    decide +kernel
  | comma =>
    rw [(List.cons.inj (show c :: cs = [','] from h)).1]
    decide +kernel
  | _ => cases hk

/-- Where no word goes on in the source, none does in the skeleton. -/
theorem word_skeletonFrom {x : Lexeme} (hx : x.kind ≠ .openParen) {xs : List Lexeme}
    {tail : List Char} (hl : Legible (some x.kind) tail xs)
    (hs : Stops isWord (print xs ++ tail)) (ctx : Context) (offset offset' : Nat) :
    word (skeletonFrom (ctx.after (x.token offset)) (place offset' xs)) = [] := by
  cases xs with
  | nil => rfl
  | cons y ys =>
    obtain ⟨-, hscans, -⟩ := hl
    have hreads := hscans.reads
    obtain ⟨c, cs, htext, -, -⟩ := hscans
    have hprev : (ctx.after (x.token offset)).prev.any (fun p => p.kind != .openParen) = true :=
      bne_iff_ne.mpr hx
    rw [place, skeletonFrom, List.append_assoc]
    cases hc : isWord c with
    | false =>
      rw [gap]
      split
      · rfl
      · exact word_pieces hreads htext hc _ _ _ _
    | true =>
      -- a word here has white space in front, and one space of it is kept
      have htakes : takesSpace y.kind = true := by
        rw [← Bool.not_eq_false]
        intro hk
        rw [isWord_of_not_takesSpace (htext ▸ hreads) hk] at hc
        cases hc
      rw [gap_eq_lead _ _ htakes, lead, hprev, Bool.true_and]
      cases hgap : y.gap with
      | nil =>
        rw [print, hgap, htext] at hs
        rw [stops_cons.mp hs] at hc
        cases hc
      | cons d ds => rfl

theorem unmarked_gap (prev : Option Token) (t : Token) : Unmarked (gap prev t) := by
  rw [gap]
  split
  · exact unmarked_verbatim (markless_singleton (show isMark ' ' = false from rfl))
  · exact nofun

/-- What starts with a mark is sent as it is, and no word goes on behind it. -/
theorem pieces_of_isMark {prev : Option TokenKind} {x : Lexeme} {rest : List Char}
    (h : Scans prev x rest) (hc : ∃ c ∈ x.text.head?, isMark c = true) :
    Stops isWord rest ∧ x.kind ≠ .openParen ∧
      ∀ ctx offset next, pieces ctx (x.token offset) next = verbatim x.text := by
  obtain ⟨gap, kind, text⟩ := x
  obtain ⟨c, cs, rfl, -, hscan⟩ := h
  obtain ⟨d, hd, hmark⟩ := hc
  obtain rfl := Option.some.inj hd
  rw [scanToken_of_isMark _ hmark] at hscan
  obtain ⟨hkind, hdrop⟩ := Prod.mk.inj (Except.ok.inj hscan)
  refine ⟨hdrop ▸ stops_dropWhile isWord _, ?_⟩
  dsimp only at hkind
  split at hkind
  all_goals
    subst hkind
    exact ⟨nofun, fun _ _ _ => rfl⟩

/-- What starts with no mark has none. -/
theorem unmarked_pieces {x : Lexeme} (h : x.kind.Reads x.text)
    (hc : ¬∃ c ∈ x.text.head?, isMark c = true) (ctx : Context) (offset : Nat)
    (next : Option Token) : Unmarked (pieces ctx (x.token offset) next) := by
  rcases pieces_cases h ctx offset next with hp | ⟨hp, hmark | hmarkless⟩
  · exact hp.unmarked
  · exact absurd hmark hc
  · rw [hp]
    exact unmarked_verbatim hmarkless

/-- What stands outside the holes is from the source. -/
theorem sublist_written {prev : Option TokenKind} {xs : List Lexeme} {tail : List Char}
    (hl : Legible prev tail xs) (ctx : Context) (offset : Nat) :
    (written (skeletonFrom ctx (place offset xs))).Sublist
      (placeholdersIn (print xs ++ tail)) := by
  induction xs generalizing prev ctx offset with
  | nil => exact List.nil_sublist _
  | cons x xs ih =>
    obtain ⟨hgap, hscans, hrest⟩ := hl
    have hmarkless : Markless x.gap := fun d hd => isMark_of_isBlank (hgap d hd)
    have hnext := ih hrest (ctx.after (x.token (offset + x.gap.length)))
      (offset + x.gap.length + x.text.length)
    rw [print, place, skeletonFrom, List.append_assoc, List.append_assoc, List.append_assoc,
      hmarkless.placeholdersIn_append, (unmarked_gap _ _).written_append]
    by_cases hc : ∃ c ∈ x.text.head?, isMark c = true
    · obtain ⟨hstops, hkind, hpieces⟩ := pieces_of_isMark hscans hc
      rw [hpieces, written_append (word_skeletonFrom hkind hrest hstops _ _ _), written_verbatim,
        placeholdersIn_append hstops]
      exact (List.Sublist.refl _).append hnext
    · rw [(unmarked_pieces hscans.reads hc _ _ _).written_append]
      exact hnext.trans (sublist_placeholdersIn (List.suffix_append _ _))

end Inferred

/-! ## Compiled expressions -/

open Skeleton

/-- What a skeleton has outside its holes is from its source, in either grammar. -/
theorem sublist_written {g : Grammar} {source : List Char} {ps : Skeleton}
    (h : skeleton g source = .ok ps) : (written ps).Sublist (placeholdersIn source) := by
  cases g with
  | inferred =>
    rw [skeleton_inferred] at h
    cases htokens : tokenize source with
    | error e =>
      rw [htokens] at h
      cases h
    | ok tokens =>
      rw [htokens] at h
      cases h
      obtain ⟨xs, tail, -, hlegible, -, rfl, rfl⟩ := tokenize_eq_ok_iff.mp htokens
      exact Inferred.sublist_written hlegible _ _
  | tagged =>
    rw [skeleton] at h
    split at h
    · cases h
      exact List.nil_sublist _
    · rw [Tagged.skeleton] at h
      split at h
      · next ps' hps =>
        cases h
        rw [written_trim]
        exact Tagged.sublist_written hps
      · cases h

/-- The placeholders in a compiled expression are its own, each once and in the order of their
numbers, between those that the source has; where none of those is one of its own, its own are
told from the others by their bindings. No word character may stand directly behind what a
placeholder replaces. -/
theorem compile_closed {g : Grammar} {source : String} {ps : Skeleton}
    (hps : skeleton g source.toList = .ok ps) (hseparated : ps.isSeparated = true) {start : Int}
    (hs : 1 ≤ start) :
    ∃ c keys others, compile g start source = .ok c ∧ keys.Perm c.placeholders ∧
      keys.Pairwise (Compiled.indexOf · < Compiled.indexOf ·) ∧
      others.Sublist (placeholdersIn source.toList) ∧
      Interleave keys others (placeholdersIn c.expression.toList) ∧
      ((∀ p ∈ others, p ∉ c.placeholders) →
        (placeholdersIn c.expression.toList).filter (· ∈ c.placeholders) = keys) := by
  have hs' : 0 ≤ start := by omega
  have hperm := (placeholders_perm start ps).symm
  have hfound : Interleave (placeholderTexts start ps.holes) ps.written
      (placeholdersIn (ps.fill start).expression.toList) := by
    rw [fill, String.toList_ofList]
    exact interleave_placeholdersIn hs' hseparated
  refine ⟨ps.fill start, placeholderTexts start ps.holes, ps.written, ?_, hperm,
    pairwise_placeholderTexts hs' ps.holes, sublist_written hps, hfound, fun hothers => ?_⟩
  · rw [compile, hps]
  · exact hfound.filter_eq (fun p hp => decide_eq_true (hperm.mem_iff.mp hp))
      fun p hp => decide_eq_false (hothers p hp)

/-- A placeholder of the caller's below the start, between those of the expression. -/
theorem compile_closed_below :
    ∃ c keys, compile .inferred 2 "a.b[0] = :V1 AND c = 'x'" = .ok c ∧
      keys.Perm c.placeholders ∧ keys.Pairwise (Compiled.indexOf · < Compiled.indexOf ·) ∧
      (placeholdersIn c.expression.toList).filter (· ∈ c.placeholders) = keys := by
  have hps : skeleton .inferred "a.b[0] = :V1 AND c = 'x'".toList = .ok
      ([.name ['a'], .char '.', .name ['b']] ++ verbatim "[0] = :V1 AND ".toList ++
        [.name ['c'], .char ' ', .char '=', .char ' ', .value (.string ['x'])]) :=
    eq_ok_of_toOption (by decide +kernel)
  obtain ⟨c, keys, others, hc, hperm, hkeys, hothers, -, hfilter⟩ :=
    compile_closed hps (by decide +kernel) (show (1 : Int) ≤ 2 by decide)
  have hsource : placeholdersIn "a.b[0] = :V1 AND c = 'x'".toList = [":V1"] := by decide +kernel
  obtain ⟨c', hc', hfresh⟩ : ∃ c, compile .inferred 2 "a.b[0] = :V1 AND c = 'x'" = .ok c ∧
      ":V1" ∉ c.placeholders := exists_ok_of_any (by decide +kernel)
  rw [hc] at hc'
  cases hc'
  refine ⟨c, keys, hc, hperm, hkeys, hfilter fun p hp => ?_⟩
  have hmem := hothers.subset hp
  rw [hsource, List.mem_singleton] at hmem
  rw [hmem]
  exact hfresh

/-- A placeholder in the source can be one that is generated, and a word directly behind a literal
goes on with the literal's placeholder. -/
theorem not_compile_closed :
    (∃ c, compile .inferred 1 ":V1 = 'x'" = .ok c ∧ c.placeholders = [":V1"] ∧
      placeholdersIn c.expression.toList = [":V1", ":V1"]) ∧
    ∃ c, compile .inferred 1 "a = 'x'AND b = 1" = .ok c ∧ ":V2" ∈ c.placeholders ∧
      ":V2" ∉ placeholdersIn c.expression.toList :=
  ⟨exists_ok_of_any (by decide +kernel), exists_ok_of_any (by decide +kernel)⟩

end ItemStore.Expression
