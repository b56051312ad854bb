import ItemStore.Expression.Path
import ItemStore.Text.Letter

/-
  Tokens of the expression language and the scanners of the single kinds. A number is digits
  with an optional fraction that no word character follows; a binary literal is text without
  white space between angle brackets; a text literal stands between single quotes and a
  backslash takes the next character as it is.
-/

namespace ItemStore.Expression

open Text

/-- The words of the language. -/
inductive Keyword where
  | set
  | add
  | remove
  | delete
  | and
  | or
  | not
  | between
  | in
  deriving DecidableEq, Inhabited

namespace Keyword

/-- A keyword as text. -/
def text : Keyword → String
  | .set => "SET"
  | .add => "ADD"
  | .remove => "REMOVE"
  | .delete => "DELETE"
  | .and => "AND"
  | .or => "OR"
  | .not => "NOT"
  | .between => "BETWEEN"
  | .in => "IN"

/-- All keywords. -/
def all : List Keyword :=
  [.set, .add, .remove, .delete, .and, .or, .not, .between, .in]

/-- The keyword that a word is, in any case. -/
def ofWord? (word : List Char) : Option Keyword :=
  all.find? fun k => upper word == k.text.toList

/-- A keyword that opens a clause of an update. -/
def opensClause : Keyword → Bool
  | .set | .add | .remove | .delete => true
  | _ => false

/-- A keyword that opens a clause whose operands are paths. -/
def takesOperands : Keyword → Bool
  | .add | .remove | .delete => true
  | _ => false

/-- A keyword that compares the path before it. -/
def isRange : Keyword → Bool
  | .between | .in => true
  | _ => false

end Keyword

/-- What a token is. -/
inductive TokenKind where
  | string (payload : List Char)
  | binary (payload : List Char)
  | number
  | operator
  | openParen
  | closeParen
  | comma
  | placeholder
  | path (segments : List Segment)
  | other
  deriving DecidableEq, Inhabited

/-- A token: its text in the source, where it starts, and whether white space stands before it. -/
structure Token where
  kind : TokenKind
  text : List Char
  offset : Nat
  spaced : Bool
  deriving DecidableEq, Inhabited

namespace Token

/-- The segments of a path. -/
def segments (t : Token) : List Segment :=
  match t.kind with
  | .path segments => segments
  | _ => []

/-- The name of a path of one segment that is neither quoted nor indexed. -/
def bareWord? (t : Token) : Option (List Char) :=
  match t.kind with
  | .path [⟨name, [], false⟩] => some name
  | _ => none

/-- The keyword that a token is. -/
def keyword? (t : Token) : Option Keyword :=
  t.bareWord?.bind Keyword.ofWord?

/-- Whether a token is a keyword of a class. -/
def isKeyword (p : Keyword → Bool) (t : Token) : Bool :=
  t.keyword?.any p

/-- Whether a value, not an operator, is expected after this token. -/
def expectsValue (t : Token) : Bool :=
  t.kind == .operator || t.kind == .openParen || t.kind == .comma || t.keyword?.isSome

end Token

/-- Whether a value is expected at the start of the source or after a token. -/
def valueExpected (prev : Option Token) : Bool :=
  prev.all Token.expectsValue

/-- The text after a number. A fraction that a word character follows is left out; digits that
one follows are no number. -/
def scanNumber (cs : List Char) : Option (List Char) :=
  match cs.takeWhile isDigit, cs.dropWhile isDigit with
  | [], _ => none
  | _ :: _, '.' :: more =>
    let after := more.dropWhile isDigit
    if (more.takeWhile isDigit).isEmpty || startsWord after then some ('.' :: more)
    else some after
  | _ :: _, rest => if startsWord rest then none else some rest

/-- The text after a number with a minus sign in front. -/
def scanSignedNumber : List Char → Option (List Char)
  | '-' :: cs => scanNumber cs
  | _ => none

/-- A character that a binary literal may hold. -/
def isBinaryChar (c : Char) : Bool :=
  !isBlank c && c != '<' && c != '>'

/-- The payload of a binary literal, and the text after it. -/
def scanBinary : List Char → Option (List Char × List Char)
  | '<' :: cs =>
    match cs.takeWhile isBinaryChar, cs.dropWhile isBinaryChar with
    | c :: payload, '>' :: rest => some (c :: payload, rest)
    | _, _ => none
  | _ => none

/-- The text after an operator. -/
def scanOperator : List Char → Option (List Char)
  | '<' :: '>' :: cs => some cs
  | '<' :: '=' :: cs => some cs
  | '>' :: '=' :: cs => some cs
  | c :: cs => if ['=', '<', '>', '+', '-'].contains c then some cs else none
  | [] => none

/-- The text after a placeholder. -/
def scanPlaceholder : List Char → Option (List Char)
  | c :: cs => if (c == '#' || c == ':') && startsWord cs then some (cs.dropWhile isWord) else none
  | [] => none

/-- The payload of a text literal after its opening quote, and the text after it. -/
def scanString : List Char → Option (List Char × List Char)
  | [] => none
  | '\\' :: c :: cs => (scanString cs).map fun r => (c :: r.1, r.2)
  | c :: cs => if c = '\x27' then some ([], cs) else (scanString cs).map fun r => (c :: r.1, r.2)

theorem scanNumber_length {cs rest : List Char} (h : scanNumber cs = some rest) :
    rest.length < cs.length := by
  have key : ∀ c ds r, cs.takeWhile isDigit = c :: ds → cs.dropWhile isDigit = r →
      r.length < cs.length := by
    intro c ds r h₁ h₂
    have := congrArg List.length (List.takeWhile_append_dropWhile (p := isDigit) (l := cs))
    rw [h₁, h₂] at this
    simp only [List.length_append, List.length_cons] at this
    omega
  unfold scanNumber at h
  split at h
  · simp at h
  · next c ds more h₁ h₂ =>
    have hlt := key c ds _ h₁ h₂
    have := length_dropWhile_le isDigit more
    simp only [List.length_cons] at hlt
    dsimp only at h
    split at h
    · simp only [Option.some.injEq] at h
      rw [← h]
      simpa using hlt
    · simp only [Option.some.injEq] at h
      rw [← h]
      omega
  · next c ds h₁ _ =>
    split at h
    · simp at h
    · simp only [Option.some.injEq] at h
      exact key c ds _ h₁ h

theorem scanSignedNumber_length {cs rest : List Char} (h : scanSignedNumber cs = some rest) :
    rest.length < cs.length := by
  unfold scanSignedNumber at h
  split at h
  · have := scanNumber_length h
    simp only [List.length_cons]
    omega
  · simp at h

theorem scanBinary_length {cs payload rest : List Char}
    (h : scanBinary cs = some (payload, rest)) : rest.length < cs.length := by
  unfold scanBinary at h
  split at h
  · next cs' =>
    split at h
    · next _ _ rest' _ hd =>
      have := length_dropWhile_le isBinaryChar cs'
      rw [hd] at this
      simp only [Option.some.injEq, Prod.mk.injEq] at h
      rw [← h.2]
      simp only [List.length_cons] at this ⊢
      omega
    · simp at h
  · simp at h

theorem scanOperator_length {cs rest : List Char} (h : scanOperator cs = some rest) :
    rest.length < cs.length := by
  unfold scanOperator at h
  repeat' split at h
  all_goals simp only [Option.some.injEq, reduceCtorEq] at h
  all_goals
    rw [← h]
    simp only [List.length_cons]
    omega

theorem scanPlaceholder_length {cs rest : List Char} (h : scanPlaceholder cs = some rest) :
    rest.length < cs.length := by
  unfold scanPlaceholder at h
  split at h
  · next c cs' =>
    split at h
    · have := length_dropWhile_le isWord cs'
      simp only [Option.some.injEq] at h
      rw [← h]
      simp only [List.length_cons]
      omega
    · simp at h
  · simp at h

theorem scanString_length {cs payload rest : List Char}
    (h : scanString cs = some (payload, rest)) : rest.length < cs.length := by
  fun_induction scanString cs generalizing payload rest with
  | case1 => simp at h
  | case2 c cs ih =>
    obtain ⟨r, hr, he⟩ := Option.map_eq_some_iff.1 h
    have := ih hr
    simp only [Prod.mk.injEq] at he
    rw [← he.2]
    simp only [List.length_cons]
    omega
  | case3 cs _ =>
    simp only [Option.some.injEq, Prod.mk.injEq] at h
    simp [h.2]
  | case4 c cs _ _ ih =>
    obtain ⟨r, hr, he⟩ := Option.map_eq_some_iff.1 h
    have := ih hr
    simp only [Prod.mk.injEq] at he
    rw [← he.2]
    simp only [List.length_cons]
    omega

end ItemStore.Expression
