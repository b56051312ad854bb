import ItemStore.Number.Binary64

/-
  Sums of decimals, rounded to 28 digits, a tie to the even digit. The exponent of an exact sum
  is the smaller of the two exponents. The sum of opposite infinities does not exist, nor does
  one with a signaling not-a-number.
-/

namespace ItemStore.Number

namespace Decimal

/-- The digits that a sum keeps. -/
def precision : Nat := 28

/-- The finite decimal nearest to a coefficient with an exponent. -/
def rounded (negative : Bool) (coefficient : Nat) (exponent : Int) : Decimal :=
  let extra := (digits coefficient).length - precision
  let c := Binary64.nearest coefficient (Nat.pow 10 extra)
  if precision < (digits c).length then .finite negative (c / 10) (exponent + extra + 1)
  else .finite negative c (exponent + extra)

/-- A signed coefficient. -/
def signed (negative : Bool) (coefficient : Nat) : Int :=
  if negative then -(coefficient : Int) else coefficient

/-- The sum with zero of the given exponent. -/
def plusZero (negative : Bool) (coefficient : Nat) (exponent zeroExponent : Int) : Decimal :=
  let e := max (min exponent zeroExponent) (exponent - precision - 1)
  rounded negative (coefficient * Nat.pow 10 (exponent - e).toNat) e

/-- The sum of numbers other than zero, of which the first has the greater exponent. A second
number too small to reach the last digit counts only as a trace that is not zero. -/
def plusSmaller (s : Bool) (c : Nat) (e : Int) (t : Bool) (d : Nat) (f : Int) : Decimal :=
  let floor := e + min (-1) (((digits c).length : Int) - precision - 2)
  let (d, f) := if f + (digits d).length - 1 < floor then (1, floor) else (d, f)
  let sum := signed s (c * Nat.pow 10 (e - f).toNat) + signed t d
  rounded (sum < 0) sum.natAbs f

/-- The sum of two finite decimals. -/
def plusFinite (s : Bool) (c : Nat) (e : Int) (t : Bool) (d : Nat) (f : Int) : Decimal :=
  if c = 0 ∧ d = 0 then .finite (s && t) 0 (min e f)
  else if c = 0 then plusZero t d f e
  else if d = 0 then plusZero s c e f
  else if e < f then plusSmaller t d f s c e
  else plusSmaller s c e t d f

/-- The sum of two decimals, if there is one. -/
def plus? : Decimal → Decimal → Option Decimal
  | .nan true _ _, _ | _, .nan true _ _ => none
  | .nan false s p, _ => some (.nan false s p)
  | _, .nan false s p => some (.nan false s p)
  | .infinity s, .infinity t => if s = t then some (.infinity s) else none
  | .infinity s, _ => some (.infinity s)
  | _, .infinity t => some (.infinity t)
  | .finite s c e, .finite t d f => some (plusFinite s c e t d f)

end Decimal

end ItemStore.Number
