/-
  Classes of characters given as lists of closed code point ranges.

  A text is a list of characters, and a character is a Unicode scalar value: a lone surrogate is
  none, so no class, table or text here has one, and nothing is said of texts that hold one.
-/

namespace ItemStore.Text

/-- Closed ranges of code points. -/
abbrev Ranges := List (Nat × Nat)

/-- Whether a character lies in one of the ranges. -/
def Ranges.has (rs : Ranges) (c : Char) : Bool :=
  rs.any fun r => r.1 ≤ c.toNat && c.toNat ≤ r.2

end ItemStore.Text
