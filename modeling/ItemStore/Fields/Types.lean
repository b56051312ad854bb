import ItemStore.Fields.Checked
import ItemStore.Number.Reading

/-
  The types of fields and the values each takes. A number is taken from any value that is or
  writes the same number, and a boolean from the numbers 0 and 1 and from the usual words; text
  is never made from other values, but from bytes that are valid UTF-8.
-/

namespace ItemStore

open Number (Binary64)

namespace Field

/-- The text of bytes that are valid UTF-8. -/
def utf8Text? (data : List UInt8) : Option String :=
  String.fromUTF8? ⟨data.toArray⟩

/-- Text. -/
def text (v : Value) : Checked String :=
  match v with
  | .text s => .taken s
  | .bytes .view _ => .refuse .textType
  | .bytes _ data => (utf8Text? data).elim (.refuse .textEncoding) .taken
  | _ => .refuse .textType

/-- A value or nothing. -/
def optional {α : Type} (check : Value → Checked α) (v : Value) : Checked (Option α) :=
  match v with
  | .null => .taken none
  | v => some <$> check v

/-- One of the values that a naming function gives. -/
def choice {α : Type} (ofName? : String → Option α) (v : Value) : Checked α :=
  match text v with
  | .taken s => (ofName? s).elim (.refuse .choice) .taken
  | .refused _ => .refuse .choice

/-- The text that a number may be written in: that of a text or of fixed bytes. -/
def numberText? (v : Value) : Option (Option (List Char)) :=
  match v with
  | .text s => some (some s.toList)
  | .bytes .fixed data => some ((utf8Text? data).map String.toList)
  | _ => none

/-- The integer that a text writes, with a sign, single underscores between digits, and no other
fraction than zeros. -/
def integerOf? (cs : List Char) : Option Int :=
  let (negative, body) := Number.splitSign (Text.trim Text.isMargin cs)
  let whole := body.takeWhile (· ≠ '.')
  let fraction := (body.dropWhile (· ≠ '.')).drop 1
  if fraction.all (· = '0') then
    match (Number.ungroup? ' ' whole).bind Number.natural? with
    | some n => some (if negative then -(n : Int) else n)
    | none => none
  else none

/-- The longest text that an integer is read from. -/
def maxIntegerText : Nat := 4300

/-- An integer from text. -/
def integerFromText (cs : Option (List Char)) : Checked Int :=
  match cs with
  | none => .refuse .integerText
  | some cs =>
    if maxIntegerText < (Text.trim Text.isMargin cs).length then .refuse .integerSize
    else (integerOf? cs).elim (.refuse .integerText) .taken

/-- An integer. -/
def integer (v : Value) : Checked Int :=
  match v with
  | .bool b => .taken (if b then 1 else 0)
  | .int n => .taken n
  | .float (.finite s m q) =>
    if Binary64.isIntegral m q then
      let n : Int := Binary64.floorSize m q
      .taken (if s then -n else n)
    else .refuse .fraction
  | .float _ => .refuse .notFinite
  | .decimal (.finite s c e) =>
    let (_, c, e) := Number.Decimal.lowest s c e
    if e < 0 then .refuse .fraction
    else
      let n : Int := c * Nat.pow 10 e.natAbs
      .taken (if s then -n else n)
  | .decimal _ => .refuse .notFinite
  | v =>
    match numberText? v with
    | some cs => integerFromText cs
    | none => .refuse .integerType

/-- The binary64 number nearest to a decimal. -/
def nearest : Number.Decimal → Binary64
  | .finite s c e => .ofDecimal s c e
  | .infinity s => .infinity s
  | .nan .. => .nan

/-- The binary64 number that an ASCII text writes. -/
def realOf? (cs : List Char) : Option Binary64 :=
  if (Text.trim Text.isMargin cs).all fun c => c.toNat < 128 then Number.readBinary64? cs else none

/-- A binary64 number. -/
def real (v : Value) : Checked Binary64 :=
  match v with
  | .bool b => .taken (.ofInt (if b then 1 else 0))
  | .int n => .taken (.ofInt n)
  | .float x => .taken x
  | .decimal d => .taken (nearest d)
  | v =>
    match numberText? v with
    | some cs => (cs.bind realOf?).elim (.refuse .floatText) .taken
    | none => .refuse .floatType

/-- The words for true. -/
def trueWords : List String :=
  ["1", "t", "true", "y", "yes", "on"]

/-- The words for false. -/
def falseWords : List String :=
  ["0", "f", "false", "n", "no", "off"]

/-- A boolean from a word, in any case of ASCII letters. -/
def booleanOfWord (word : List Char) : Checked Bool :=
  let w := String.ofList (word.map Char.toLower)
  if trueWords.contains w then .taken true
  else if falseWords.contains w then .taken false
  else .refuse .boolText

/-- A boolean from an integer. -/
def booleanOfInt (n : Int) : Checked Bool :=
  if n = 0 then .taken false else if n = 1 then .taken true else .refuse .boolText

/-- A boolean. -/
def boolean (v : Value) : Checked Bool :=
  match v with
  | .bool b => .taken b
  | .int n => booleanOfInt n
  | .float _ | .decimal _ =>
    match integer v with
    | .taken n => booleanOfInt n
    | .refused _ => .refuse .boolType
  | v =>
    match numberText? v with
    | some (some cs) => booleanOfWord cs
    | some none => .refuse .boolText
    | none => .refuse .boolType

/-- A list of any values. -/
def elements (v : Value) : Checked (List Value) :=
  match v with
  | .seq _ xs => .taken xs
  | _ => .refuse .listType

/-- A key of a map as a step of a path. -/
def step (key : Value) : Value :=
  match key with
  | .text _ | .int _ => key
  | .bool b => .int (if b then 1 else 0)
  | other => .text other.quoted

/-- A map with text keys whose values are checked. -/
def mapping {α : Type} (check : Value → Checked α) (v : Value) : Checked (List (String × α)) :=
  match v with
  | .map es =>
    let pairs := es.map fun (k, x) =>
      Prod.mk <$> ((text k).under (.text "[key]")).under (step k) <*> (check x).under (step k)
    Entries.ofPairs <$> pairs.foldr (fun p rest => List.cons <$> p <*> rest) (.taken [])
  | _ => .refuse .mapType

/-- Any value. -/
def anything (v : Value) : Checked Value :=
  .taken v

end Field

end ItemStore
