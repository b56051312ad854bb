import ItemStore.Text.Printable

/-
  Quoted text, as values show it inside other values. Text stands between single quotes, or
  between double quotes when it holds a single quote and no double one. The backslash, the
  quote in use, newline, carriage return and tab are escaped by a backslash, and a character
  that is not printable by its code point in hexadecimal. A lone surrogate, which would be escaped
  as well, is no character and does not occur.
-/

namespace ItemStore.Text

/-- The last `width` hexadecimal digits of a number, lower case. -/
def hex : Nat → Nat → List Char
  | 0, _ => []
  | width + 1, n => hex width (n / 16) ++ [Nat.digitChar (n % 16)]

/-- A code point as an escape of two, four or eight hexadecimal digits. -/
def codePointEscape (n : Nat) : List Char :=
  if n < 0x100 then '\\' :: 'x' :: hex 2 n
  else if n < 0x10000 then '\\' :: 'u' :: hex 4 n
  else '\\' :: 'U' :: hex 8 n

/-- The quote that a text is written between. -/
def quoteFor (cs : List Char) : Char :=
  if cs.contains '\x27' && !cs.contains '\x22' then '\x22' else '\x27'

/-- A character inside quotes: `marked` tells which characters stand behind a backslash, and
`shown` which of the others stand for themselves. -/
def escape (shown marked : Char → Bool) (c : Char) : List Char :=
  if marked c then ['\\', c]
  else if c == '\n' then ['\\', 'n']
  else if c == '\r' then ['\\', 'r']
  else if c == '\t' then ['\\', 't']
  else if shown c then [c]
  else codePointEscape c.toNat

/-- The backslash and the quote in use. -/
def isMark (quote c : Char) : Bool :=
  c == '\\' || c == quote

/-- Text between quotes. -/
def quoted (s : String) : String :=
  let q := quoteFor s.toList
  String.ofList (q :: s.toList.flatMap (escape isPrintable (isMark q)) ++ [q])

/-- Printable ASCII. -/
def isPlain (c : Char) : Bool :=
  32 ≤ c.toNat && c.toNat < 127

/-- The bytes as characters of the same numbers. -/
def byteChars (data : List UInt8) : List Char :=
  data.map fun b => Char.ofNat b.toNat

/-- Bytes between quotes, after the letter `b`: printable ASCII stands for itself. -/
def quotedBytes (data : List UInt8) : String :=
  let cs := byteChars data
  let q := quoteFor cs
  String.ofList ('b' :: q :: cs.flatMap (escape isPlain (isMark q)) ++ [q])

/-- The bytes of a buffer between quotes. A single quote always stands behind a backslash, also
between double quotes. -/
def quotedBuffer (data : List UInt8) : String :=
  let cs := byteChars data
  let q := quoteFor cs
  String.ofList ('b' :: q :: cs.flatMap (escape isPlain (isMark '\x27')) ++ [q])

end ItemStore.Text
