import ItemStore.Failure.Basic
import ItemStore.Wire.Basic

/-
  Payloads of number tags read back. Decimal mode reads every number as a decimal; otherwise a
  text with a point or an exponent is read as a binary64 number and any other as an integer.
-/

namespace ItemStore

open Number (Binary64 Decimal)

namespace Value

/-- The digit that a value is. -/
def toDigit (v : Value) : Except Fault Nat :=
  match v with
  | .int n => if 0 ≤ n ∧ n ≤ 9 then .ok n.toNat else .error .badValue
  | .bool b => .ok (if b then 1 else 0)
  | _ => .error .badValue

/-- The sign that a value is: 0 for plus, 1 for minus. -/
def toSign (v : Value) : Except Fault Bool :=
  match v with
  | .int 0 => .ok false
  | .int 1 => .ok true
  | .bool b => .ok b
  | _ => .error .badValue

/-- Whether an exponent fits the words that sizes are counted in. -/
def wordSized (e : Int) : Except Fault Int :=
  if -Nat.pow 2 63 ≤ e ∧ e < Nat.pow 2 63 then .ok e else .error .tooLarge

/-- The finite decimal of a coefficient and an exponent in range. -/
def finiteDecimal (negative : Bool) (coefficient : Nat) (exponent : Int) : Except Fault Decimal :=
  if Decimal.inRange coefficient exponent then .ok (.finite negative coefficient exponent)
  else .error .badDecimal

/-- The elements of a list or a tuple. -/
def digitList (v : Value) : Except Fault (List Nat) :=
  match v with
  | .seq .list xs | .seq .tuple xs => xs.mapM toDigit
  | _ => .error .badValue

/-- The decimal of a sign, digits and an exponent, the latter a number or the letter of a special
value. -/
def decimalOfParts (sign digits exponent : Value) : Except Fault Decimal := do
  let negative ← sign.toSign
  let kind : Except Int (Nat → Decimal) ←
    match exponent with
    | .int e => pure (.error (← wordSized e))
    | .bool b => pure (.error (if b then 1 else 0))
    | .text "F" => pure (.ok fun _ => .infinity negative)
    | .text "n" => pure (.ok fun payload => .nan false negative payload)
    | .text "N" => pure (.ok fun payload => .nan true negative payload)
    | _ => throw .badValue
  let coefficient := (← digits.digitList).foldl (fun n d => 10 * n + d) 0
  match kind with
  | .error e => finiteDecimal negative coefficient e
  | .ok special => return special coefficient

/-- The decimal that a value is or writes. -/
def toDecimal : Value → Except Fault Decimal
  | .bool b => .ok (.ofInt (if b then 1 else 0))
  | .int n => .ok (.ofInt n)
  | .float x => .ok x.toDecimal
  | .decimal d => .ok d
  | .text s => (Number.readDecimal? s.toList).elim (.error .badDecimal) .ok
  | .seq .list xs | .seq .tuple xs =>
    match xs with
    | [sign, digits, exponent] => decimalOfParts sign digits exponent
    | _ => .error .badValue
  | _ => .error .wrongKind

/-- Whether a number text has a point or an exponent. -/
def isFractional (s : String) : Bool :=
  s.toList.any fun c => c == '.' || c == 'e' || c == 'E'

/-- The number that a payload writes, when numbers are not read as decimals. -/
def toPlainNumber : Value → Except Fault Value
  | .text s =>
    if isFractional s then
      (Number.readBinary64? s.toList).elim (.error .badValue) fun x => .ok (.float x)
    else (Number.readInt? s.toList).elim (.error .badValue) fun n => .ok (.int n)
  | .bytes .view data => return .int (← toInt (.bytes .view data))
  | _ => .error .wrongKind

/-- The number that a payload writes. A fault of the payload is told with it; only a number too
large for its use is raised as it is. -/
def readNumber (decimalNumbers : Bool) (payload : Value) : Outcome Value :=
  let number := if decimalNumbers then .decimal <$> payload.toDecimal else payload.toPlainNumber
  match number with
  | .ok n => .ok n
  | .error .tooLarge => .error (.fault .tooLarge)
  | .error f =>
    .error (.marshal ("Invalid number payload: " ++ payload.quoted) (Wire.tagged .n payload)
      (some (.fault f)))

end Value

end ItemStore
