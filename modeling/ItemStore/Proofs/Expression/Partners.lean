import ItemStore.Proofs.Expression.Lexemes
import ItemStore.Proofs.Expression.Parentheses

/-
  Which parentheses among tokens belong together. A closing parenthesis has its partner in front of
  it (`HasOpener`) if what stands between an opening one and itself is balanced, and an opening one
  has its partner behind it (`HasCloser`) in the same way. Tokens are balanced exactly if each of
  their parentheses has its partner (`balanced_parens_iff`).

  Tokens are matched with a stack of offsets, one token after the other (`openedAfter`). What comes
  of it is said without the stack: the first closing parenthesis without a partner
  (`openedAfter_eq_error_iff`), nothing (`openedAfter_eq_nil_iff`), or on top the last opening
  parenthesis without one (`exists_openedAfter_iff`). The invariant is that what was read is
  balanced pieces with the parentheses of the stack between them (`LeavesOpen`).
-/

namespace ItemStore.Expression

/-! ## Parentheses among tokens -/

/-- The parenthesis that a token is. -/
def Token.paren? (t : Token) : Option Char :=
  match t.kind with
  | .openParen => some '('
  | .closeParen => some ')'
  | _ => none

/-- The parentheses among tokens, as text. -/
def parens (ts : List Token) : List Char :=
  ts.filterMap Token.paren?

theorem parens_append (ts us : List Token) : parens (ts ++ us) = parens ts ++ parens us :=
  List.filterMap_append

theorem parens_open {t : Token} (ht : t.kind = .openParen) (ts : List Token) :
    parens (t :: ts) = '(' :: parens ts := by
  rw [parens, List.filterMap_cons, Token.paren?, ht]
  rfl

theorem parens_close {t : Token} (ht : t.kind = .closeParen) (ts : List Token) :
    parens (t :: ts) = ')' :: parens ts := by
  rw [parens, List.filterMap_cons, Token.paren?, ht]
  rfl

/-- An opening parenthesis among these tokens is the partner of a closing one right behind them. -/
def HasOpener (before : List Token) : Prop :=
  ∃ front t inner, before = front ++ t :: inner ∧ t.kind = .openParen ∧ Balanced (parens inner)

/-- A closing parenthesis among these tokens is the partner of an opening one right in front of
them. -/
def HasCloser (after : List Token) : Prop :=
  ∃ inner t back, after = inner ++ t :: back ∧ t.kind = .closeParen ∧ Balanced (parens inner)

/-- Every closing parenthesis has its partner. -/
def AllOpened (ts : List Token) : Prop :=
  ∀ before t after, ts = before ++ t :: after → t.kind = .closeParen → HasOpener before

/-- Every opening parenthesis has its partner. -/
def AllClosed (ts : List Token) : Prop :=
  ∀ before t after, ts = before ++ t :: after → t.kind = .openParen → HasCloser after

/-- The first closing parenthesis without a partner, by its offset. -/
def FirstUnopened (ts : List Token) (offset : Nat) : Prop :=
  ∃ before t after, ts = before ++ t :: after ∧ t.kind = .closeParen ∧ t.offset = offset ∧
    ¬HasOpener before ∧ AllOpened before

/-- The last opening parenthesis without a partner, by its offset. -/
def LastUnclosed (ts : List Token) (offset : Nat) : Prop :=
  ∃ before t after, ts = before ++ t :: after ∧ t.kind = .openParen ∧ t.offset = offset ∧
    ¬HasCloser after ∧ AllClosed after

/-! ## By counting -/

theorem Balanced.enclosed {cs : List Char} (h : Balanced cs) : Balanced ('(' :: (cs ++ [')'])) := by
  have hwithin : Within 1 cs := fun front hfront => by
    have := h.within front hfront
    omega
  have hcount : cs.count ')' + 1 = 1 + cs.count '(' := by rw [h.count_eq, Nat.add_comm]
  refine ⟨within_open_iff.mpr (hwithin.append hcount (within_nil 0).close), ?_⟩
  rw [List.count_cons_of_ne (by decide), List.count_cons_self, List.count_append,
    List.count_append, h.count_eq]
  rfl

/-- Balanced tokens open nothing for what stands behind them. -/
theorem not_hasOpener_of_balanced {ts : List Token} (h : Balanced (parens ts)) : ¬HasOpener ts := by
  rintro ⟨front, t, inner, rfl, ht, hinner⟩
  have hwithin := h.within (parens front) (by rw [parens_append]; exact List.prefix_append _ _)
  have hcount := h.count_eq
  rw [parens_append, parens_open ht, List.count_append, List.count_append,
    List.count_cons_of_ne (by decide), List.count_cons_self, hinner.count_eq] at hcount
  omega

/-- Balanced tokens close nothing that stands in front of them. -/
theorem not_hasCloser_of_balanced {ts : List Token} (h : Balanced (parens ts)) : ¬HasCloser ts := by
  rintro ⟨inner, t, back, rfl, ht, hinner⟩
  have hwithin := h.within (parens inner ++ [')']) (by
    rw [parens_append, parens_close ht, List.append_cons (parens inner) ')' (parens back)]
    exact List.prefix_append _ _)
  rw [List.count_append, List.count_append, List.count_singleton_self,
    List.count_eq_zero_of_not_mem (by decide : '(' ∉ [')']), hinner.count_eq] at hwithin
  omega

/-! ## The stack -/

/-- The parentheses open behind tokens, innermost first, by their offsets; or the offset of the
first one that closes none. -/
def openedAfter (opened : List Nat) : List Token → Except Nat (List Nat)
  | [] => .ok opened
  | t :: ts =>
    match matchParens t.kind t.offset opened with
    | none => .error t.offset
    | some opened' => openedAfter opened' ts

theorem openedAfter_of_none {opened : List Nat} {t : Token}
    (h : matchParens t.kind t.offset opened = none) (ts : List Token) :
    openedAfter opened (t :: ts) = .error t.offset := by
  rw [openedAfter, h]

theorem openedAfter_of_some {opened opened' : List Nat} {t : Token}
    (h : matchParens t.kind t.offset opened = some opened') (ts : List Token) :
    openedAfter opened (t :: ts) = openedAfter opened' ts := by
  rw [openedAfter, h]

theorem openedAfter_append (opened : List Nat) (ts us : List Token) :
    openedAfter opened (ts ++ us) = (openedAfter opened ts).bind fun o => openedAfter o us := by
  induction ts generalizing opened with
  | nil => rfl
  | cons t ts ih =>
    rw [List.cons_append, openedAfter, openedAfter]
    cases matchParens t.kind t.offset opened with
    | none => rfl
    | some opened' => exact ih opened'

/-- What tokens leave open: balanced pieces with open parentheses between them. -/
inductive LeavesOpen : List Token → List Nat → Prop
  | balanced {ts : List Token} (h : Balanced (parens ts)) : LeavesOpen ts []
  | opened {ts inner : List Token} {opened : List Nat} {t : Token} (h : LeavesOpen ts opened)
      (ht : t.kind = .openParen) (hinner : Balanced (parens inner)) :
    LeavesOpen (ts ++ t :: inner) (t.offset :: opened)

namespace LeavesOpen

theorem nil : LeavesOpen [] [] :=
  .balanced balanced_nil

theorem append {ts us : List Token} {opened : List Nat} (h : LeavesOpen ts opened)
    (hus : Balanced (parens us)) : LeavesOpen (ts ++ us) opened := by
  cases h with
  | balanced h =>
    refine .balanced ?_
    rw [parens_append]
    exact h.append hus
  | opened h ht hinner =>
    rw [List.append_assoc, List.cons_append]
    refine .opened h ht ?_
    rw [parens_append]
    exact hinner.append hus

/-- One token more. -/
theorem step {ts : List Token} {opened opened' : List Nat} {t : Token} (h : LeavesOpen ts opened)
    (hmatch : matchParens t.kind t.offset opened = some opened') :
    LeavesOpen (ts ++ [t]) opened' := by
  have hother : t.paren? = none → opened' = opened → LeavesOpen (ts ++ [t]) opened' := by
    rintro hnone rfl
    refine h.append ?_
    rw [parens, List.filterMap_cons, hnone]
    exact balanced_nil
  cases hkind : t.kind with
  | openParen =>
    rw [hkind] at hmatch
    cases hmatch
    exact .opened h hkind balanced_nil
  | closeParen =>
    rw [hkind] at hmatch
    cases h with
    | balanced h => cases hmatch
    | @opened ts inner opened o h ho hinner =>
      cases hmatch
      rw [List.append_assoc]
      refine h.append ?_
      rw [List.cons_append, parens_open ho, parens_append, parens_close hkind]
      exact hinner.enclosed
  | _ =>
    rw [hkind] at hmatch
    exact hother (by rw [Token.paren?, hkind]) (Option.some.inj hmatch).symm

/-- The parenthesis on top of the stack waits for its partner. -/
theorem hasOpener {ts : List Token} {o : Nat} {opened : List Nat}
    (h : LeavesOpen ts (o :: opened)) : HasOpener ts := by
  cases h with
  | opened h ht hinner => exact ⟨_, _, _, rfl, ht, hinner⟩

end LeavesOpen

/-- A run over tokens ends at the first closing parenthesis for which none is open, or keeps the
invariant to the end. -/
theorem openedAfter_cases {ts : List Token} {opened : List Nat} (h : LeavesOpen ts opened)
    (us : List Token) :
    (∃ opened', openedAfter opened us = .ok opened' ∧ LeavesOpen (ts ++ us) opened') ∨
      ∃ before t after, us = before ++ t :: after ∧ t.kind = .closeParen ∧
        openedAfter opened us = .error t.offset ∧ openedAfter opened before = .ok [] ∧
        Balanced (parens (ts ++ before)) := by
  induction us generalizing ts opened with
  | nil =>
    refine .inl ⟨opened, rfl, ?_⟩
    rw [List.append_nil]
    exact h
  | cons u us ih =>
    cases hmatch : matchParens u.kind u.offset opened with
    | none =>
      obtain ⟨hkind, rfl⟩ := Lexeme.matchParens_eq_none_iff.mp hmatch
      refine .inr ⟨[], u, us, rfl, hkind, openedAfter_of_none hmatch us, rfl, ?_⟩
      cases h with
      | balanced h =>
        rw [List.append_nil]
        exact h
    | some opened₁ =>
      rw [openedAfter_of_some hmatch]
      rcases ih (h.step hmatch) with
        ⟨opened', hok, hopen⟩ | ⟨before, t, after, rfl, ht, herr, hok, hb⟩
      · refine .inl ⟨opened', hok, ?_⟩
        rw [List.append_cons]
        exact hopen
      · refine .inr ⟨u :: before, t, after, rfl, ht, herr, ?_, ?_⟩
        · rw [openedAfter_of_some hmatch]
          exact hok
        · rw [List.append_cons]
          exact hb

theorem leavesOpen_of_openedAfter {ts : List Token} {opened : List Nat}
    (h : openedAfter [] ts = .ok opened) : LeavesOpen ts opened := by
  rcases openedAfter_cases .nil ts with ⟨opened', hok, hopen⟩ | ⟨_, _, _, _, _, herr, _⟩
  · rw [h] at hok
    cases hok
    exact hopen
  · rw [h] at herr
    cases herr

/-- Where a run goes on, every parenthesis that was closed was open. -/
theorem allOpened_of_openedAfter {ts : List Token} {opened : List Nat}
    (h : openedAfter [] ts = .ok opened) : AllOpened ts := by
  rintro before t after rfl ht
  rw [openedAfter_append] at h
  cases hbefore : openedAfter [] before with
  | error o =>
    rw [hbefore] at h
    cases h
  | ok opened₁ =>
    rw [hbefore, Except.bind, openedAfter, ht] at h
    cases opened₁ with
    | nil => cases h
    | cons o opened₁ => exact (leavesOpen_of_openedAfter hbefore).hasOpener

theorem matchParens_append {kind : TokenKind} {offset : Nat} {opened opened' : List Nat}
    (h : matchParens kind offset opened = some opened') (outer : List Nat) :
    matchParens kind offset (opened ++ outer) = some (opened' ++ outer) := by
  unfold matchParens at h ⊢
  split at h
  · cases h
    rfl
  · split at h
    · cases h
    · cases h
      rfl
  · cases h
    rfl

/-- A parenthesis that is open before tokens and not behind them is closed among them. What was
read since it was opened leaves open what lies above it on the stack. -/
theorem hasCloser_of_openedAfter {inner us : List Token} {above outer : List Nat} {o : Nat}
    (h : LeavesOpen inner above) (hrun : openedAfter (above ++ o :: outer) us = .ok []) :
    HasCloser (inner ++ us) := by
  induction us generalizing inner above with
  | nil =>
    cases hrun' : above ++ o :: outer with
    | nil => exact absurd hrun' (List.append_ne_nil_of_right_ne_nil _ (List.cons_ne_nil _ _))
    | cons a as =>
      rw [hrun'] at hrun
      cases hrun
  | cons u us ih =>
    cases hmatch : matchParens u.kind u.offset above with
    | some above' =>
      rw [openedAfter_of_some (matchParens_append hmatch _)] at hrun
      rw [List.append_cons]
      exact ih (h.step hmatch) hrun
    | none =>
      obtain ⟨hkind, rfl⟩ := Lexeme.matchParens_eq_none_iff.mp hmatch
      cases h with
      | balanced h => exact ⟨inner, u, us, rfl, hkind, h⟩

theorem allClosed_of_openedAfter {ts : List Token} (h : openedAfter [] ts = .ok []) :
    AllClosed ts := by
  rintro before t after rfl ht
  rw [openedAfter_append] at h
  cases hbefore : openedAfter [] before with
  | error o =>
    rw [hbefore] at h
    cases h
  | ok opened =>
    rw [hbefore, Except.bind, openedAfter, ht] at h
    have hrest : openedAfter ([] ++ t.offset :: opened) after = .ok [] := h
    exact hasCloser_of_openedAfter .nil hrest

/-! ## What comes of a run -/

theorem openedAfter_eq_nil_iff {ts : List Token} :
    openedAfter [] ts = .ok [] ↔ Balanced (parens ts) := by
  constructor
  · intro h
    cases leavesOpen_of_openedAfter h with
    | balanced h => exact h
  · intro h
    rcases openedAfter_cases .nil ts with
      ⟨opened, hok, hopen⟩ | ⟨before, t, after, rfl, ht, -, -, hb⟩
    · cases opened with
      | nil => exact hok
      | cons o opened => exact absurd hopen.hasOpener (not_hasOpener_of_balanced h)
    · exact absurd ⟨before, t, after, rfl, ht, hb⟩ (not_hasCloser_of_balanced h)

theorem openedAfter_eq_error_iff {ts : List Token} {offset : Nat} :
    openedAfter [] ts = .error offset ↔ FirstUnopened ts offset := by
  constructor
  · intro h
    rcases openedAfter_cases .nil ts with
      ⟨opened, hok, -⟩ | ⟨before, t, after, hts, ht, herr, hok, hb⟩
    · rw [h] at hok
      cases hok
    · rw [h] at herr
      exact ⟨before, t, after, hts, ht, (Except.error.inj herr).symm, not_hasOpener_of_balanced hb,
        allOpened_of_openedAfter hok⟩
  · rintro ⟨before, t, after, rfl, ht, rfl, hnot, hall⟩
    rw [openedAfter_append]
    rcases openedAfter_cases .nil before with ⟨opened, hok, hopen⟩ | ⟨b, u, a, rfl, hu, -, -, hb⟩
    · cases opened with
      | nil =>
        rw [hok, Except.bind, openedAfter, ht]
        rfl
      | cons o opened => exact absurd hopen.hasOpener hnot
    · exact absurd (hall b u a rfl hu) (not_hasOpener_of_balanced hb)

/-- Tokens are balanced exactly if each of their parentheses has its partner. -/
theorem balanced_parens_iff {ts : List Token} :
    Balanced (parens ts) ↔ AllOpened ts ∧ AllClosed ts := by
  rw [← openedAfter_eq_nil_iff]
  constructor
  · intro h
    exact ⟨allOpened_of_openedAfter h, allClosed_of_openedAfter h⟩
  · rintro ⟨hopened, hclosed⟩
    rcases openedAfter_cases .nil ts with ⟨opened, hok, hopen⟩ | ⟨b, u, a, rfl, hu, -, -, hb⟩
    · cases hopen with
      | balanced h => exact hok
      | opened h ht hinner =>
        exact absurd (hclosed _ _ _ rfl ht) (not_hasCloser_of_balanced hinner)
    · exact absurd (hopened b u a rfl hu) (not_hasOpener_of_balanced hb)

theorem LastUnclosed.unique {ts : List Token} {offset offset' : Nat} (h : LastUnclosed ts offset)
    (h' : LastUnclosed ts offset') : offset = offset' := by
  obtain ⟨before, t, after, rfl, ht, rfl, hnot, hall⟩ := h
  obtain ⟨before', t', after', heq, ht', rfl, hnot', hall'⟩ := h'
  rcases List.append_eq_append_iff.mp heq with ⟨mid, rfl, hmid⟩ | ⟨mid, rfl, hmid⟩
  · cases mid with
    | nil => rw [(List.cons.inj hmid).1]
    | cons m mid => exact absurd (hall mid t' after' (List.cons.inj hmid).2 ht') hnot'
  · cases mid with
    | nil => rw [(List.cons.inj hmid).1]
    | cons m mid => exact absurd (hall' mid t after (List.cons.inj hmid).2 ht) hnot

/-- The parenthesis on top of the stack is the last that is left open. -/
theorem exists_openedAfter_iff {ts : List Token} {offset : Nat} :
    (∃ outer, openedAfter [] ts = .ok (offset :: outer)) ↔
      AllOpened ts ∧ LastUnclosed ts offset := by
  have hlast : ∀ {o outer}, openedAfter [] ts = .ok (o :: outer) → LastUnclosed ts o := by
    intro o outer h
    cases leavesOpen_of_openedAfter h with
    | opened h ht hinner =>
      exact ⟨_, _, _, rfl, ht, rfl, not_hasCloser_of_balanced hinner,
        (balanced_parens_iff.mp hinner).2⟩
  constructor
  · rintro ⟨outer, h⟩
    exact ⟨allOpened_of_openedAfter h, hlast h⟩
  · rintro ⟨hopened, hunclosed⟩
    cases hrun : openedAfter [] ts with
    | error o =>
      obtain ⟨before, t, after, rfl, ht, -, hnot, -⟩ := openedAfter_eq_error_iff.mp hrun
      exact absurd (hopened before t after rfl ht) hnot
    | ok opened =>
      cases opened with
      | nil =>
        obtain ⟨before, t, after, rfl, ht, -, hnot, -⟩ := hunclosed
        exact absurd (allClosed_of_openedAfter hrun before t after rfl ht) hnot
      | cons o outer =>
        rw [hunclosed.unique (hlast hrun)]
        exact ⟨outer, rfl⟩

end ItemStore.Expression
