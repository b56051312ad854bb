import ItemStore.Text.Quoted
import ItemStore.Value.Basic

/-
  The text of a value: `quoted` is how it shows inside other values, `shown` how it shows on its
  own. They differ for text, decimals, dates and timestamps. Where a value is turned into text an
  integer with too many digits has none, on its own and inside of others (`isWritable`).
-/

namespace ItemStore

namespace Date

/-- A date as a call that makes it. -/
def quoted (d : Date) : String :=
  "datetime.date(" ++ joinWith ", " ([d.year, d.month, d.day].map natText) ++ ")"

end Date

namespace Timestamp

/-- An offset from UTC as a call that makes it. -/
def quotedOffset (offset : Int) : String :=
  if offset = 0 then "datetime.timezone.utc"
  else
    let days := offset.fdiv 86400
    let seconds := offset.fmod 86400
    let parts :=
      (if days = 0 then [] else ["days=" ++ intText days]) ++
        (if seconds = 0 then [] else ["seconds=" ++ intText seconds])
    "datetime.timezone(datetime.timedelta(" ++ joinWith ", " parts ++ "))"

/-- A timestamp as a call that makes it: seconds and microseconds only as far as needed. -/
def quoted (t : Timestamp) : String :=
  let fields := [t.date.year, t.date.month, t.date.day, t.hour, t.minute] ++
    (if t.microsecond ≠ 0 then [t.second, t.microsecond]
      else if t.second ≠ 0 then [t.second] else [])
  let zone :=
    match t.offset with
    | none => []
    | some o => ["tzinfo=" ++ quotedOffset o]
  "datetime.datetime(" ++ joinWith ", " (fields.map natText ++ zone) ++ ")"

end Timestamp

namespace Value

/-- The quoted texts of a sequence's elements between its brackets. -/
def bracketed (kind : SeqKind) (parts : List String) : String :=
  let body := joinWith ", " parts
  match kind with
  | .list => "[" ++ body ++ "]"
  | .tuple => "(" ++ body ++ (if parts.length = 1 then ",)" else ")")
  | .set => if parts.isEmpty then "set()" else "\x7b" ++ body ++ "\x7d"
  | .frozenSet => if parts.isEmpty then "frozenset()" else "frozenset(\x7b" ++ body ++ "\x7d)"

mutual

/-- A value as it shows inside other values. -/
def quoted : Value → String
  | .null => "None"
  | .bool b => if b then "True" else "False"
  | .int n => intText n
  | .float x => String.ofList x.text
  | .decimal d => "Decimal('" ++ String.ofList d.text ++ "')"
  | .text s => Text.quoted s
  | .bytes .fixed data => Text.quotedBytes data
  | .bytes .buffer data => "bytearray(" ++ Text.quotedBuffer data ++ ")"
  | .bytes .view _ => "<memory>"
  | .seq kind xs => bracketed kind (quotedAll xs)
  | .date d => d.quoted
  | .timestamp t => t.quoted
  | .foreign => "<object>"
  | .map es => "\x7b" ++ joinWith ", " (quotedEntries es) ++ "\x7d"

/-- The quoted texts of values. -/
def quotedAll : List Value → List String
  | [] => []
  | x :: xs => quoted x :: quotedAll xs

/-- The quoted texts of a map's entries. -/
def quotedEntries : List (Value × Value) → List String
  | [] => []
  | (k, v) :: es => (quoted k ++ ": " ++ quoted v) :: quotedEntries es

end

/-- A value as it shows on its own. -/
def shown : Value → String
  | .text s => s
  | .decimal d => String.ofList d.text
  | .date d => d.isoText
  | .timestamp t => t.isoText " "
  | v => quoted v

mutual

/-- Whether all integers of a value, those in its keys too, have few enough digits to be
written. -/
def isWritable : Value → Bool
  | .int n => Number.isWritable n
  | .seq _ xs => allWritable xs
  | .map es => entriesWritable es
  | _ => true

/-- Whether all values of a list are writable. -/
def allWritable : List Value → Bool
  | [] => true
  | x :: xs => isWritable x && allWritable xs

/-- Whether all keys and values of a map's entries are writable. -/
def entriesWritable : List (Value × Value) → Bool
  | [] => true
  | (k, v) :: es => isWritable k && isWritable v && entriesWritable es

end

end Value

end ItemStore
