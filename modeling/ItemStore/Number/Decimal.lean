import ItemStore.Number.Digits

/-
  Decimal numbers that keep their sign, coefficient and exponent, so that `1.50` and `1.5`
  differ, with signed infinities and signed not-a-numbers. `Decimal.text` writes one as
  DynamoDB numbers are written: plain notation while the exponent is at most 0 and the adjusted
  exponent at least -6, scientific notation otherwise.
-/

namespace ItemStore.Number

/-- A decimal number: `coefficient * 10 ^ exponent` with a sign, or a special value. -/
inductive Decimal where
  | finite (negative : Bool) (coefficient : Nat) (exponent : Int)
  | infinity (negative : Bool)
  /-- Not a number, quiet or signaling, with the number it carries (0 for none). -/
  | nan (signaling negative : Bool) (payload : Nat)
  deriving DecidableEq, Inhabited

namespace Decimal

/-- An integer as a decimal with exponent 0. -/
def ofInt (n : Int) : Decimal :=
  .finite (n < 0) n.natAbs 0

/-- Neither infinite nor a not-a-number. -/
def isFinite : Decimal → Bool
  | .finite .. => true
  | _ => false

/-- The sign, where there is one to write. -/
def signText (negative : Bool) : List Char :=
  if negative then ['-'] else []

/-- An exponent after its letter: the sign is always written. -/
def exponentText (e : Int) : List Char :=
  (if e < 0 then '-' else '+') :: digits e.natAbs

/-- The digits of a coefficient with the point `places` digits from the right. -/
def pointed (ds : List Char) (places : Nat) : List Char :=
  if places = 0 then ds
  else if places < ds.length then
    ds.take (ds.length - places) ++ '.' :: ds.drop (ds.length - places)
  else '0' :: '.' :: (List.replicate (places - ds.length) '0' ++ ds)

/-- One digit, the others after a point, and the exponent of the first. -/
def scientific (ds : List Char) (adjusted : Int) : List Char :=
  (match ds with
    | [d] => [d]
    | d :: rest => d :: '.' :: rest
    | [] => []) ++ 'E' :: exponentText adjusted

/-- The digits of a coefficient with its exponent, in plain or in scientific notation. -/
def magnitudeText (coefficient : Nat) (exponent : Int) : List Char :=
  let ds := digits coefficient
  let adjusted := exponent + ds.length - 1
  if exponent ≤ 0 ∧ -6 ≤ adjusted then pointed ds exponent.natAbs
  else scientific ds adjusted

/-- A decimal as text; every digit and the exponent can be read off it. -/
def text : Decimal → List Char
  | .finite s c e => signText s ++ magnitudeText c e
  | .infinity s => signText s ++ "Infinity".toList
  | .nan signaling s payload =>
    signText s ++ (if signaling then ['s'] else []) ++ "NaN".toList ++
      (if payload = 0 then [] else digits payload)

/-- The largest adjusted exponent a decimal may have. -/
def maxExponent : Int := 999999999999999999

/-- The least exponent a decimal may have. -/
def minExponent : Int := -1999999999999999997

/-- Whether a coefficient and exponent lie in the range of decimals. -/
def inRange (coefficient : Nat) (exponent : Int) : Bool :=
  let adjusted :=
    if coefficient = 0 then exponent else exponent + (digits coefficient).length - 1
  minExponent ≤ exponent && adjusted ≤ maxExponent

/-- The number without the zeros at its end, and how many there were. -/
def stripZeros (n : Nat) : Nat × Nat :=
  if n = 0 ∨ n % 10 ≠ 0 then (n, 0)
  else
    let (m, k) := stripZeros (n / 10)
    (m, k + 1)
termination_by n
decreasing_by omega

/-- The least coefficient with its exponent, so that equal numbers have equal forms; zero has
neither sign nor exponent. -/
def lowest (negative : Bool) (coefficient : Nat) (exponent : Int) : Bool × Nat × Int :=
  if coefficient = 0 then (false, 0, 0)
  else
    let (c, k) := stripZeros coefficient
    (negative, c, exponent + k)

end Decimal

end ItemStore.Number
