import ItemStore.Text.Digit

/-
  Whole numbers as decimal text. `digits` writes a number without leading zeros, `valueOf` reads
  a run of decimal digits of any script. Integers go to text and come from text with a limited
  number of digits (`maxDigits`); `intText` is the text of any integer, `isWritable` says which
  integers are written.
-/

namespace ItemStore.Number

/-- The ASCII digit of a number below ten. -/
def digitChar (d : Nat) : Char :=
  Char.ofNat (48 + d)

/-- The decimal digits of a number, without leading zeros. -/
def digits (n : Nat) : List Char :=
  if n < 10 then [digitChar n] else digits (n / 10) ++ [digitChar (n % 10)]
termination_by n
decreasing_by omega

/-- The number that a run of decimal digits writes. -/
def valueOf (cs : List Char) : Nat :=
  cs.foldl (fun n c => 10 * n + (Text.digitValue? c).getD 0) 0

/-- A number with at least `width` digits, zeros in front. -/
def padded (width n : Nat) : List Char :=
  let ds := digits n
  List.replicate (width - ds.length) '0' ++ ds

/-- An integer as decimal text, with a sign only when it is negative. -/
def intText : Int → List Char
  | .ofNat n => digits n
  | .negSucc n => '-' :: digits (n + 1)

/-- The most digits that an integer is written with or read from. -/
def maxDigits : Nat := 4300

/-- Whether an integer has few enough digits to be written. -/
def isWritable (n : Int) : Bool :=
  (digits n.natAbs).length ≤ maxDigits

/-- The text with the decimal digits of every script written as ASCII digits. -/
def plainDigits (cs : List Char) : List Char :=
  cs.map fun c =>
    match Text.digitValue? c with
    | some d => digitChar d
    | none => c

end ItemStore.Number
