import SchemaClosure.Text.Pieces

/-!
# Dates and times of day

Days of the proleptic Gregorian calendar from year 1 to year 9999, times of day to the microsecond
with an optional offset, and their ISO texts. Only valid dates and times are built
(`Date.of?`, `Instant.of?`).
-/

namespace SchemaClosure

structure Date where
  year : Nat
  month : Nat
  day : Nat
  deriving DecidableEq, Repr, Inhabited

/-- A day and a time of day. The offset is in minutes east of Greenwich; without one the place is
not known. -/
structure Instant where
  date : Date
  hour : Nat
  minute : Nat
  second : Nat
  microsecond : Nat
  offset : Option Int
  deriving DecidableEq, Repr, Inhabited

namespace Date

def isLeap (year : Nat) : Bool :=
  year % 4 == 0 && (year % 100 != 0 || year % 400 == 0)

def daysIn (year month : Nat) : Nat :=
  if month = 2 then (if isLeap year then 29 else 28)
  else if month = 4 || month = 6 || month = 9 || month = 11 then 30
  else 31

def of? (year month day : Nat) : Option Date :=
  if 1 ≤ year && year ≤ 9999 && 1 ≤ month && month ≤ 12 && 1 ≤ day && day ≤ daysIn year month then
    some ⟨year, month, day⟩
  else none

/-- Days since the day before the first of January of year 1. -/
def ordinal (d : Date) : Nat :=
  let y := d.year - 1
  let past := (List.range (d.month - 1)).foldl (fun days m => days + daysIn d.year (m + 1)) 0
  365 * y + y / 4 - y / 100 + y / 400 + past + d.day

end Date

def Date.text (d : Date) : String :=
  Text.decimal 4 d.year ++ "-" ++ Text.decimal 2 d.month ++ "-" ++ Text.decimal 2 d.day

namespace Instant

/-- The instant, if the date, the time of day and the offset are possible ones. -/
def of? (date : Date) (hour minute second microsecond : Nat) (offset : Option Int) :
    Option Instant :=
  if hour < 24 && minute < 60 && second < 60 && microsecond < 1000000 &&
      (offset.all fun o => -1440 < o && o < 1440) then
    some ⟨date, hour, minute, second, microsecond, offset⟩
  else none

/-- The sign, the hours and the minutes of an offset. -/
def offsetText (o : Int) : String :=
  (if o < 0 then "-" else "+") ++ Text.decimal 2 (o.natAbs / 60) ++ ":" ++ Text.decimal 2 (o.natAbs % 60)

/-- The ISO text with `between` between the date and the time; no fraction if it is zero. -/
def text (between : String) (t : Instant) : String :=
  let clock := Text.decimal 2 t.hour ++ ":" ++ Text.decimal 2 t.minute ++ ":" ++ Text.decimal 2 t.second
  let fraction := if t.microsecond = 0 then "" else "." ++ Text.decimal 6 t.microsecond
  t.date.text ++ between ++ clock ++ fraction ++ (t.offset.elim "" offsetText)

/-- Microseconds on a common scale, the offset not taken into account. -/
def reading (t : Instant) : Int :=
  (((t.date.ordinal * 24 + t.hour) * 60 + t.minute) * 60 + t.second) * 1000000 + t.microsecond

/-- Whether two instants are the same: at the same moment if both have an offset, with the same
reading if neither has one. -/
def same (s t : Instant) : Bool :=
  match s.offset, t.offset with
  | none, none => s.reading == t.reading
  | some a, some b => s.reading - a * 60000000 == t.reading - b * 60000000
  | _, _ => false

end Instant

end SchemaClosure
