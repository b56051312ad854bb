import ItemStore.Text.Ranges

/-
  White space. `isBlank` is the class the expression language skips and trims; numbers are
  read with the smaller class `isMargin`, which leaves out the four information separators.
-/

namespace ItemStore.Text

/-- Code points of white space, as closed ranges in ascending order. -/
def blankRanges : Ranges :=
  [(0x9, 0xd), (0x1c, 0x20), (0x85, 0x85), (0xa0, 0xa0), (0x1680, 0x1680), (0x2000, 0x200a),
   (0x2028, 0x2029), (0x202f, 0x202f), (0x205f, 0x205f), (0x3000, 0x3000)]

/-- White space. -/
def isBlank (c : Char) : Bool :=
  blankRanges.has c

/-- White space other than the information separators U+001C to U+001F. -/
def isMargin (c : Char) : Bool :=
  isBlank c && !(0x1c ≤ c.toNat && c.toNat ≤ 0x1f)

/-- The list without the elements of a class at its end. -/
def trimEnd {α : Type u} (p : α → Bool) : List α → List α
  | [] => []
  | x :: xs =>
    match trimEnd p xs with
    | [] => if p x then [] else [x]
    | rest => x :: rest

/-- The list without the elements of a class at both ends. -/
def trim {α : Type u} (p : α → Bool) (xs : List α) : List α :=
  trimEnd p (xs.dropWhile p)

end ItemStore.Text
