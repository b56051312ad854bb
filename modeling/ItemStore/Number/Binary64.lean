import ItemStore.Number.Decimal

/-
  Binary floating point numbers of 64 bits, as exact values: a sign, a significand below 2^53
  and a power of two. `ofRatio` rounds a positive ratio to the nearest one, a tie to the even
  significand, and overflows to infinity.
-/

namespace ItemStore.Number

/-- A binary64 number. A finite one is `significand * 2 ^ exponent` with a sign; the significand
is below 2^53, and at least 2^52 unless the exponent is the least one, -1074. -/
inductive Binary64 where
  | finite (negative : Bool) (significand : Nat) (exponent : Int)
  | infinity (negative : Bool)
  | nan
  deriving DecidableEq, Inhabited

namespace Binary64

/-- Neither infinite nor a not-a-number. -/
def isFinite : Binary64 → Bool
  | .finite .. => true
  | _ => false

/-- Zero of the given sign. -/
def zero (negative : Bool) : Binary64 :=
  .finite negative 0 (-1074)

/-- The quotient nearest to a ratio, a tie going to the even one. -/
def nearest (num den : Nat) : Nat :=
  let q := num / den
  let r := num % den
  if den < 2 * r ∨ (den = 2 * r ∧ q % 2 = 1) then q + 1 else q

/-- A ratio divided by a power of two, as numerator and denominator. -/
def scaleDown (num den : Nat) (q : Int) : Nat × Nat :=
  if q < 0 then (num * Nat.pow 2 q.natAbs, den) else (num, den * Nat.pow 2 q.natAbs)

/-- The number with a significand of up to 53 bits, or infinity. -/
def pack (negative : Bool) (m : Nat) (q : Int) : Binary64 :=
  let (m, q) := if m = Nat.pow 2 53 then (Nat.pow 2 52, q + 1) else (m, q)
  if 971 < q then .infinity negative else .finite negative m q

/-- The number nearest to `num / den`, a tie going to the even significand. -/
def ofRatio (negative : Bool) (num den : Nat) : Binary64 :=
  if num = 0 then zero negative
  else
    let q : Int := max (-1074) ((num.log2 : Int) - den.log2 - 53)
    let (n, d) := scaleDown num den q
    if n / d < Nat.pow 2 53 then pack negative (nearest n d) q
    else
      let (n, d) := scaleDown num den (q + 1)
      pack negative (nearest n d) (q + 1)

/-- The number nearest to `coefficient * 10 ^ exponent`. Exponents beyond the range of binary64
on either side are settled without computing the power. -/
def ofDecimal (negative : Bool) (coefficient : Nat) (exponent : Int) : Binary64 :=
  let adjusted := exponent + (digits coefficient).length
  if coefficient = 0 ∨ adjusted < -330 then zero negative
  else if 310 < adjusted then .infinity negative
  else if exponent < 0 then ofRatio negative coefficient (Nat.pow 10 exponent.natAbs)
  else ofRatio negative (coefficient * Nat.pow 10 exponent.natAbs) 1

/-- The number nearest to an integer. -/
def ofInt (n : Int) : Binary64 :=
  ofDecimal (n < 0) n.natAbs 0

/-- The size of a finite number as numerator and denominator. -/
def ratio (m : Nat) (q : Int) : Nat × Nat :=
  if q < 0 then (m, Nat.pow 2 q.natAbs) else (m * Nat.pow 2 q.natAbs, 1)

/-- The significand without factors of two, and the exponent that goes with it. -/
def reduce (m : Nat) (q : Int) : Nat × Int :=
  if m = 0 ∨ m % 2 = 1 then (m, q) else reduce (m / 2) (q + 1)
termination_by m
decreasing_by omega

/-- The same number as a decimal, exactly. -/
def toDecimal : Binary64 → Decimal
  | .finite s m q =>
    if m = 0 then .finite s 0 0
    else
      let (m, q) := reduce m q
      if q < 0 then .finite s (m * Nat.pow 5 q.natAbs) q else .finite s (m * Nat.pow 2 q.natAbs) 0
  | .infinity s => .infinity s
  | .nan => .nan false false 0

/-- The integer part of a finite number, without the sign. -/
def floorSize (m : Nat) (q : Int) : Nat :=
  let (n, d) := ratio m q
  n / d

/-- Whether a finite number is an integer. -/
def isIntegral (m : Nat) (q : Int) : Bool :=
  let (n, d) := ratio m q
  n % d == 0

/-- A finite number as a signed ratio. -/
def signedRatio (negative : Bool) (m : Nat) (q : Int) : Int × Nat :=
  let (n, d) := ratio m q
  (if negative then -(n : Int) else n, d)

/-- The sum, rounded to the nearest number. -/
def add : Binary64 → Binary64 → Binary64
  | .nan, _ => .nan
  | _, .nan => .nan
  | .infinity s, .infinity t => if s = t then .infinity s else .nan
  | .infinity s, _ => .infinity s
  | _, .infinity t => .infinity t
  | .finite s m q, .finite t n r =>
    let (a, b) := signedRatio s m q
    let (c, d) := signedRatio t n r
    let sum := a * d + c * b
    if sum = 0 then zero (s && t) else ofRatio (sum < 0) sum.natAbs (b * d)

end Binary64

end ItemStore.Number
