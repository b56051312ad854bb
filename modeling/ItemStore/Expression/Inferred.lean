import ItemStore.Expression.Skeleton
import ItemStore.Expression.Tokens

/-
  The grammar in which literal types are inferred from the text. Text, binary and number
  literals and the words for null, true and false become values; paths become names where their
  neighbours ask for one: next to an operator, before BETWEEN and IN, as the first argument of a
  function, as operands of ADD, REMOVE and DELETE, and wherever a segment is quoted. All else is
  sent as it is, with single spaces.
-/

namespace ItemStore.Expression

namespace Inferred

/-- What the tokens before a place say about it: the clause open there with the depth of
parentheses at which it was opened, and the depth at that place. -/
structure Place where
  clause : Option (Keyword × Nat) := none
  depth : Nat := 0
  deriving DecidableEq, Inhabited

/-- A token with what stands before it. -/
structure Context where
  place : Place := {}
  /-- The token before the one before. -/
  prev₂ : Option Token := none
  prev : Option Token := none
  deriving DecidableEq, Inhabited

/-- Whether a token is a function's name: a word with a parenthesis directly after it. -/
def isFunctionName (t : Token) (next : Option Token) : Bool :=
  t.bareWord?.isSome && t.keyword?.isNone &&
    next.any fun n => n.kind == .openParen && !n.spaced

/-- Whether a comma here separates operands of a clause that takes paths. -/
def separatesOperands (p : Place) : Bool :=
  match p.clause with
  | some (k, depth) => k.takesOperands && depth == p.depth
  | none => false

/-- Whether the token after an opening parenthesis is a function's first argument. -/
def isFirstArgument (ctx : Context) : Bool :=
  ctx.prev.any fun p => p.kind == .openParen && ctx.prev₂.any fun f => isFunctionName f ctx.prev

/-- Whether a path stands where a name is expected. -/
def isNamePosition (ctx : Context) (t : Token) (next : Option Token) : Bool :=
  !isFunctionName t next &&
    (t.segments.any (·.quoted) ||
      ctx.prev.any (Token.isKeyword Keyword.takesOperands) ||
      ctx.prev.any (fun p => p.kind == .comma && separatesOperands ctx.place) ||
      next.any (Token.isKeyword Keyword.isRange) ||
      isFirstArgument ctx ||
      next.any (fun n => n.kind == .operator))

/-- The literal that a word is, in any case. -/
def wordLiteral? (word : List Char) : Option Literal :=
  let w := Text.lower word
  if w == "null".toList then some .null
  else if w == "true".toList then some (.boolean true)
  else if w == "false".toList then some (.boolean false)
  else none

/-- The literal that a token is by its word, where a value is expected. -/
def literalAt (ctx : Context) (t : Token) : Option Literal :=
  if ctx.prev.any Token.expectsValue then t.bareWord?.bind wordLiteral? else none

/-- The pieces of a path token. -/
def pathPieces (ctx : Context) (t : Token) (next : Option Token) : Skeleton :=
  if t.keyword?.isSome then Skeleton.verbatim t.text
  else
    match literalAt ctx t with
    | some l => [.value l]
    | none =>
      if isNamePosition ctx t next then Skeleton.ofPath t.segments
      else Skeleton.verbatim t.text

/-- The pieces of a token. A number that starts the expression is no value. -/
def pieces (ctx : Context) (t : Token) (next : Option Token) : Skeleton :=
  match t.kind with
  | .string payload => [.value (.string payload)]
  | .binary payload => [.value (.binary payload)]
  | .number => if ctx.prev.isSome then [.value (.number t.text)] else Skeleton.verbatim t.text
  | .path _ => pathPieces ctx t next
  | _ => Skeleton.verbatim t.text

/-- The space before a token. -/
def gap (prev : Option Token) (t : Token) : Skeleton :=
  if prev.any (fun p => p.kind != .openParen) && t.spaced && t.kind != .closeParen &&
      t.kind != .comma then [.char ' ']
  else []

/-- The place after a token. -/
def Place.after (p : Place) (t : Token) : Place :=
  match t.kind with
  | .openParen => { p with depth := p.depth + 1 }
  | .closeParen => { p with depth := p.depth - 1 }
  | _ =>
    match t.keyword? with
    | some k => if k.opensClause then { p with clause := some (k, p.depth) } else p
    | none => p

/-- The context after a token. -/
def Context.after (ctx : Context) (t : Token) : Context :=
  { place := ctx.place.after t, prev₂ := ctx.prev, prev := some t }

/-- The skeleton of tokens in a context. -/
def skeletonFrom (ctx : Context) : List Token → Skeleton
  | [] => []
  | t :: ts => gap ctx.prev t ++ pieces ctx t ts.head? ++ skeletonFrom (ctx.after t) ts

/-- The skeleton of a source. -/
def skeleton (source : List Char) : Except Error Skeleton :=
  match tokenize source with
  | .error e => .error e
  | .ok tokens => .ok (skeletonFrom {} tokens)

end Inferred

end ItemStore.Expression
