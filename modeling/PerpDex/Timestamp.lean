/-! Points in time, in whole seconds since the start of 1970, and their calendar text. -/
namespace PerpDex

structure Timestamp where
  seconds : UInt64
deriving DecidableEq, Inhabited

/-- A day of the calendar; months and days count from 1. -/
structure CalendarDay where
  year : Nat
  month : Nat
  day : Nat

namespace CalendarDay

/-- The day that lies `days` after 1970-01-01. Years are counted from March on, so that the day a
leap year adds is the last one, in eras of 400 years. -/
def ofDays (days : Nat) : CalendarDay :=
  let shifted := days + 719468
  let era := shifted / 146097
  let dayOfEra := shifted % 146097
  let yearOfEra := (dayOfEra - dayOfEra / 1460 + dayOfEra / 36524 - dayOfEra / 146096) / 365
  let dayOfYear := dayOfEra - (365 * yearOfEra + yearOfEra / 4 - yearOfEra / 100)
  let marchMonth := (5 * dayOfYear + 2) / 153
  let month := if marchMonth < 10 then marchMonth + 3 else marchMonth - 9
  { year := era * 400 + yearOfEra + (if month ≤ 2 then 1 else 0)
    month
    day := dayOfYear - (153 * marchMonth + 2) / 5 + 1 }

end CalendarDay

namespace Timestamp

/-- The last second of the year 262142, the last one that has a calendar text. -/
def lastShown : Nat := 8210266876799

def padded (width n : Nat) : String :=
  let digits := toString n
  String.ofList (List.replicate (width - digits.length) '0') ++ digits

/-- Years have four digits; longer ones carry a plus sign. -/
def yearText (year : Nat) : String := if year ≤ 9999 then padded 4 year else "+" ++ toString year

/-- Date, time of day and the offset zero; none after `lastShown`. -/
def calendarText? (t : Timestamp) : Option String :=
  let s := t.seconds.toNat
  if lastShown < s then none
  else
    let day := CalendarDay.ofDays (s / 86400)
    let rest := s % 86400
    some (yearText day.year ++ "-" ++ padded 2 day.month ++ "-" ++ padded 2 day.day ++ "T" ++
      padded 2 (rest / 3600) ++ ":" ++ padded 2 (rest / 60 % 60) ++ ":" ++ padded 2 (rest % 60) ++
      "+00:00")

/-- The calendar text, or the bare number of seconds where there is none. -/
def text (t : Timestamp) : String := t.calendarText?.getD (toString t.seconds.toNat ++ "s")

/-- Earliest first; equal times keep their order. -/
def sorted (ts : List Timestamp) : List Timestamp :=
  ts.mergeSort fun a b => a.seconds ≤ b.seconds

end Timestamp
end PerpDex
