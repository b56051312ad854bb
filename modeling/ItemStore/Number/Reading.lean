import ItemStore.Text.Blank
import ItemStore.Text.Letter
import ItemStore.Number.Shortest

/-
  Numbers read from text. Digits of every script are accepted. Integers and binary64 numbers
  may stand between white space and may group digits by single underscores; decimals may stand
  between white space of the wider class and may hold underscores anywhere. Only integers have a
  limit of digits.
-/

namespace ItemStore.Number

/-- A sign, if the text starts with one, and the rest. -/
def splitSign : List Char → Bool × List Char
  | '-' :: cs => (true, cs)
  | '+' :: cs => (false, cs)
  | cs => (false, cs)

/-- An ASCII digit. -/
def isPlainDigit (c : Char) : Bool :=
  '0' ≤ c && c ≤ '9'

/-- The text without its underscores, if each stands between two digits; `prev` is the character
before the text. -/
def ungroup? (prev : Char) : List Char → Option (List Char)
  | [] => some []
  | c :: cs =>
    if c = '_' then
      match cs with
      | d :: _ => if isPlainDigit prev && isPlainDigit d then ungroup? c cs else none
      | [] => none
    else (ungroup? c cs).map (c :: ·)

/-- A text as integers and binary64 numbers are read from: no white space around it, digits in
ASCII, no grouping. -/
def normalize? (cs : List Char) : Option (List Char) :=
  ungroup? ' ' (plainDigits (Text.trim Text.isMargin cs))

/-- A run of digits and nothing else. -/
def natural? (cs : List Char) : Option Nat :=
  if cs ≠ [] && cs.all isPlainDigit then some (valueOf cs) else none

/-- A run of digits behind a sign or none, of any length. -/
def signedNatural? (cs : List Char) : Option Int :=
  let (negative, ds) := splitSign cs
  (natural? ds).map fun (n : Nat) => if negative then -(n : Int) else n

/-- An integer. The limit counts every digit, zeros in front too. -/
def readInt? (cs : List Char) : Option Int :=
  match normalize? cs with
  | none => none
  | some cs => if (splitSign cs).2.length ≤ maxDigits then signedNatural? cs else none

/-- The exponent after a coefficient, if the rest of the text is one or is empty. -/
def exponent? : List Char → Option Int
  | [] => some 0
  | c :: cs =>
    if c = 'e' || c = 'E' then signedNatural? cs else none

/-- An unsigned number with an optional fraction and an optional exponent, as coefficient and
exponent. -/
def scientific? (cs : List Char) : Option (Nat × Int) :=
  let whole := cs.takeWhile isPlainDigit
  let rest := cs.dropWhile isPlainDigit
  let (fraction, rest) :=
    match rest with
    | '.' :: more => (more.takeWhile isPlainDigit, more.dropWhile isPlainDigit)
    | other => ([], other)
  if whole = [] ∧ fraction = [] then none
  else (exponent? rest).map fun e => (valueOf (whole ++ fraction), e - fraction.length)

/-- Whether a text is a word, in either case. -/
def isWordOf (word : String) (cs : List Char) : Bool :=
  cs.map Char.toLower == word.toList

/-- Whether a text is one of the two words for infinity. -/
def isInfinity (cs : List Char) : Bool :=
  isWordOf "inf" cs || isWordOf "infinity" cs

/-- A binary64 number, rounded to the nearest. -/
def readBinary64? (cs : List Char) : Option Binary64 :=
  match normalize? cs with
  | none => none
  | some cs =>
    let (negative, body) := splitSign cs
    if isInfinity body then some (.infinity negative)
    else if isWordOf "nan" body then some .nan
    else (scientific? body).map fun (c, e) => .ofDecimal negative c e

/-- The number that a not-a-number carries, if the text is a run of digits or empty. -/
def payload? (cs : List Char) : Option Nat :=
  if cs.all isPlainDigit then some (valueOf cs) else none

/-- A decimal without its sign. -/
def unsignedDecimal? (negative : Bool) (cs : List Char) : Option Decimal :=
  if isInfinity cs then some (.infinity negative)
  else if isWordOf "nan" (cs.take 3) then (payload? (cs.drop 3)).map (.nan false negative)
  else if isWordOf "snan" (cs.take 4) then (payload? (cs.drop 4)).map (.nan true negative)
  else
    match scientific? cs with
    | some (c, e) => if Decimal.inRange c e then some (.finite negative c e) else none
    | none => none

/-- A decimal, with every digit kept. -/
def readDecimal? (cs : List Char) : Option Decimal :=
  let (negative, body) :=
    splitSign (plainDigits ((Text.trim Text.isBlank cs).filter (· ≠ '_')))
  unsignedDecimal? negative body

end ItemStore.Number
