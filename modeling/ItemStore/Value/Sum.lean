import ItemStore.Number.Sum
import ItemStore.Value.Reading

/-
  Sums of numbers. An integer takes on the kind of the other number; binary64 numbers and
  decimals do not mix.
-/

namespace ItemStore

open Number (Binary64 Decimal)

namespace Value

/-- The integer that a value is; booleans are 0 and 1. -/
def integer? : Value → Option Int
  | .bool b => some (if b then 1 else 0)
  | .int n => some n
  | _ => none

/-- The binary64 number that a value is, or that an integer is nearest to. -/
def binary? : Value → Option Binary64
  | .float x => some x
  | v => v.integer?.map .ofInt

/-- The decimal that a value is. -/
def decimal? : Value → Option Decimal
  | .decimal d => some d
  | v => v.integer?.map .ofInt

/-- The sum of two numbers. -/
def plus (a b : Value) : Except Fault Value :=
  match a.integer?, b.integer? with
  | some m, some n => .ok (.int (m + n))
  | _, _ =>
    match a.binary?, b.binary?, a.decimal?, b.decimal? with
    | some x, some y, _, _ => .ok (.float (x.add y))
    | _, _, some x, some y => (x.plus? y).elim (.error .badDecimal) fun d => .ok (.decimal d)
    | _, _, _, _ => .error .wrongKind

end Value

end ItemStore
