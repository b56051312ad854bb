import ItemStore.Number.Binary64

/-
  The shortest decimal text of a binary64 number. Among the decimals that round to the number,
  those of fewest digits are taken, and of those the nearest to it; the search is in exact
  arithmetic. Plain notation is used for decimal exponents from -4 to 15 and keeps at least one
  digit after the point; scientific notation writes an exponent of at least two digits.
-/

namespace ItemStore.Number

namespace Binary64

/-- The exponent `k` with `10 ^ k ≤ num / den < 10 ^ (k + 1)`, for a positive ratio. -/
def decimalExponent (num den : Nat) : Int :=
  if den ≤ num then ((digits (num / den)).length : Int) - 1
  else -((digits ((den + num - 1) / num - 1)).length : Int)

/-- Whether `a * 10 ^ k ≤ num / den`. -/
def gridLe (a : Nat) (k : Int) (num den : Nat) : Bool :=
  if k < 0 then a * den ≤ num * Nat.pow 10 k.natAbs else a * Nat.pow 10 k.natAbs * den ≤ num

/-- Whether `num / den ≤ a * 10 ^ k`. -/
def leGrid (num den a : Nat) (k : Int) : Bool :=
  if k < 0 then num * Nat.pow 10 k.natAbs ≤ a * den else num ≤ a * Nat.pow 10 k.natAbs * den

/-- `num / den` divided by `10 ^ k`, as numerator and denominator. -/
def onGrid (num den : Nat) (k : Int) : Nat × Nat :=
  if k < 0 then (num * Nat.pow 10 k.natAbs, den) else (num, den * Nat.pow 10 k.natAbs)

/-- The interval of a positive number: the number and the two ends of what rounds to it, as
numerators over one denominator. -/
structure Interval where
  low : Nat
  value : Nat
  high : Nat
  den : Nat
  /-- Whether the ends themselves round to the number. -/
  closed : Bool

/-- What rounds to `m * 2 ^ q`. Below a power of two the neighbour is half as far away. -/
def interval (m : Nat) (q : Int) : Interval :=
  let below := if m = Nat.pow 2 52 ∧ -1074 < q then 1 else 2
  let scale := q - 2
  let up := if scale < 0 then 1 else Nat.pow 2 scale.natAbs
  { low := (4 * m - below) * up
    value := 4 * m * up
    high := (4 * m + 2) * up
    den := if scale < 0 then Nat.pow 2 scale.natAbs else 1
    closed := m % 2 = 0 }

/-- Whether a grid point rounds to the number. -/
def Interval.admits (i : Interval) (a : Nat) (k : Int) : Bool :=
  if i.closed then leGrid i.low i.den a k && gridLe a k i.high i.den
  else !gridLe a k i.low i.den && !leGrid i.high i.den a k

/-- The grid point of spacing `10 ^ k` nearest to the number among its two neighbours that round
to it, if one does; a tie goes to the even one. -/
def Interval.onGrid? (i : Interval) (k : Int) : Option Nat :=
  let (n, d) := onGrid i.value i.den k
  let a := n / d
  match i.admits a k, i.admits (a + 1) k with
  | true, true => some (nearest n d)
  | true, false => some a
  | false, true => some (a + 1)
  | false, false => none

/-- The fewest digits that read back as `m * 2 ^ q`, and the exponent of the last one. -/
def shortest (m : Nat) (q : Int) : Nat × Int :=
  let i := interval m q
  let k := decimalExponent i.value i.den
  let found := (List.range 17).findSome? fun (more : Nat) =>
    (i.onGrid? (k - more)).map fun a => (a, k - (more : Int))
  let (a, e) := found.getD (0, 0)
  let (a, z) := Decimal.stripZeros a
  (a, e + z)

/-- Digits with the point after `point` of them, in plain notation. -/
def positional (ds : List Char) (point : Int) : List Char :=
  if point ≤ 0 then '0' :: '.' :: (List.replicate point.natAbs '0' ++ ds)
  else
    let p := point.natAbs
    if ds.length ≤ p then ds ++ List.replicate (p - ds.length) '0' ++ ['.', '0']
    else ds.take p ++ '.' :: ds.drop p

/-- Digits in scientific notation: the exponent has a sign and at least two digits. -/
def exponential (ds : List Char) (exponent : Int) : List Char :=
  (match ds with
    | [d] => [d]
    | d :: rest => d :: '.' :: rest
    | [] => []) ++ 'e' :: (if exponent < 0 then '-' else '+') :: padded 2 exponent.natAbs

/-- A number as text: the shortest that reads back as it. -/
def text : Binary64 → List Char
  | .nan => "nan".toList
  | .infinity s => Decimal.signText s ++ "inf".toList
  | .finite s m q =>
    Decimal.signText s ++
      if m = 0 then "0.0".toList
      else
        let (a, e) := shortest m q
        let ds := digits a
        let point := e + ds.length
        if -4 < point ∧ point ≤ 16 then positional ds point else exponential ds (point - 1)

end Binary64

end ItemStore.Number
