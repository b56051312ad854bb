import ItemStore.Number.Digits

/-
  Calendar dates and timestamps with their ISO 8601 text. A timestamp may carry the offset of
  its clock from UTC.
-/

namespace ItemStore

/-- A day of the calendar. -/
structure Date where
  year : Nat
  month : Nat
  day : Nat
  deriving DecidableEq, Inhabited

/-- A day and a time of day, with the offset from UTC in seconds where it is known. -/
structure Timestamp where
  date : Date
  hour : Nat
  minute : Nat
  second : Nat
  microsecond : Nat
  offset : Option Int
  deriving DecidableEq, Inhabited

/-- Joins texts with a separator. -/
def joinWith (sep : String) (parts : List String) : String :=
  String.intercalate sep parts

/-- A number as decimal text. -/
def natText (n : Nat) : String :=
  String.ofList (Number.digits n)

/-- An integer as decimal text. -/
def intText (n : Int) : String :=
  String.ofList (Number.intText n)

/-- A number with at least two digits. -/
def twoDigits (n : Nat) : String :=
  String.ofList (Number.padded 2 n)

/-- `YYYY-MM-DD`. -/
def Date.isoText (d : Date) : String :=
  joinWith "-" [String.ofList (Number.padded 4 d.year), twoDigits d.month, twoDigits d.day]

/-- Days from 1 March of year 0 of the proleptic calendar. -/
def Date.dayNumber (d : Date) : Int :=
  let y : Int := if d.month ≤ 2 then (d.year : Int) - 1 else d.year
  let m : Int := if d.month ≤ 2 then (d.month : Int) + 9 else (d.month : Int) - 3
  365 * y + y.fdiv 4 - y.fdiv 100 + y.fdiv 400 + (153 * m + 2).fdiv 5 + d.day - 1

namespace Timestamp

/-- An offset from UTC: `+HH:MM`, with seconds only where there are some. -/
def offsetText (offset : Int) : String :=
  let n := offset.natAbs
  let seconds := if n % 60 = 0 then "" else ":" ++ twoDigits (n % 60)
  (if offset < 0 then "-" else "+") ++ twoDigits (n / 3600) ++ ":" ++ twoDigits (n / 60 % 60) ++
    seconds

/-- The ISO 8601 text with the given separator between day and time. Microseconds are written
only where there are some. -/
def isoText (sep : String) (t : Timestamp) : String :=
  let fraction :=
    if t.microsecond = 0 then "" else "." ++ String.ofList (Number.padded 6 t.microsecond)
  let zone :=
    match t.offset with
    | none => ""
    | some o => offsetText o
  t.date.isoText ++ sep ++
    joinWith ":" [twoDigits t.hour, twoDigits t.minute, twoDigits t.second] ++ fraction ++ zone

/-- Microseconds since the calendar's origin, by the timestamp's own clock. -/
def clock (t : Timestamp) : Int :=
  ((t.date.dayNumber * 24 + t.hour) * 60 + t.minute) * 60000000 + t.second * 1000000 +
    t.microsecond

/-- Whether two timestamps are the same moment; one without an offset is never the same as one
with an offset. -/
def sameMoment (a b : Timestamp) : Bool :=
  match a.offset, b.offset with
  | none, none => a.clock == b.clock
  | some o, some p => a.clock - 1000000 * o == b.clock - 1000000 * p
  | _, _ => false

end Timestamp

end ItemStore
