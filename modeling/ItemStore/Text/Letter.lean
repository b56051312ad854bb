/-
  Upper and lower case, as far as it decides whether a text is a given ASCII word in another
  case. A character whose other case holds anything but ASCII letters is left alone: it can
  never make such a word. As characters are scalar values, lone surrogates have no case here.
-/

namespace ItemStore.Text

/-- The upper-case form of a character, where that form is made of ASCII letters; else the
character itself. A sharp s, a dotless i, a long s and the ligatures of f and of s have one. -/
def upperForm (c : Char) : List Char :=
  match c.toNat with
  | 0xdf => ['S', 'S']
  | 0x131 => ['I']
  | 0x17f => ['S']
  | 0xfb00 => ['F', 'F']
  | 0xfb01 => ['F', 'I']
  | 0xfb02 => ['F', 'L']
  | 0xfb03 => ['F', 'F', 'I']
  | 0xfb04 => ['F', 'F', 'L']
  | 0xfb05 => ['S', 'T']
  | 0xfb06 => ['S', 'T']
  | _ => [c.toUpper]

/-- The upper-case form of a text, for comparison with an ASCII word. -/
def upper (cs : List Char) : List Char :=
  cs.flatMap upperForm

/-- The lower-case form of a character, where it is an ASCII letter (the Kelvin sign has one);
else the character itself. -/
def lowerForm (c : Char) : Char :=
  if c.toNat = 0x212a then 'k' else c.toLower

/-- The lower-case form of a text, for comparison with an ASCII word. -/
def lower (cs : List Char) : List Char :=
  cs.map lowerForm

end ItemStore.Text
