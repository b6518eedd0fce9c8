import Sharding.Number.Decimal

/-!
# Dates and times of the proleptic Gregorian calendar

Days are counted from 1970-01-01 and microseconds from the start of that day.  A day number
becomes a year, a month and a day by counting in cycles of 400 years, which have 146097 days; the
cycle starts in March, so that the leap day is the last day of a year.

The calendar reaches from -262143-01-01 to +262142-12-31.  A day or an instant outside of it has no
date, and is written as its plain number.

This module stands for a calendar library that is not part of what is modelled.  The two ends, and
the form of the texts, with a sign on years outside of 0 to 9999 and the fewest digits of a fraction
that are exact, are those of the library's release 0.4; another release may choose others.  All that
is proved about the texts is that there is no quote in them (`Calendar.quote_not_mem_dayText`,
`Calendar.quote_not_mem_instantText`).
-/

namespace Sharding.Calendar

/-- A calendar date. -/
structure Date where
  year : Int
  month : Nat
  day : Nat
deriving DecidableEq

/-- The date of a day number, without regard to the calendar's ends.  `shifted` counts days from
0000-03-01. -/
def Date.ofDayNumber (days : Int) : Date :=
  let shifted := days + 719468
  let cycle := shifted / 146097
  let dayOfCycle := (shifted % 146097).toNat
  let yearOfCycle :=
    (dayOfCycle - dayOfCycle / 1460 + dayOfCycle / 36524 - dayOfCycle / 146096) / 365
  let dayOfYear := dayOfCycle - (365 * yearOfCycle + yearOfCycle / 4 - yearOfCycle / 100)
  let marchMonth := (5 * dayOfYear + 2) / 153
  let month := if marchMonth < 10 then marchMonth + 3 else marchMonth - 9
  { year := cycle * 400 + yearOfCycle + if month ≤ 2 then 1 else 0
    month
    day := dayOfYear - (153 * marchMonth + 2) / 5 + 1 }

/-- The date of a day number that lies inside the calendar. -/
def date? (days : Int) : Option Date :=
  let d := Date.ofDayNumber days
  if -262143 ≤ d.year ∧ d.year ≤ 262142 then some d else none

/-- The digits of `n` with zeros in front up to `width`. -/
def padded (width n : Nat) : String :=
  let ds := decimalDigits n
  String.ofList (List.replicate (width - ds.length) '0' ++ ds)

/-- A year has at least four digits, and a sign when it lies outside of 0 to 9999. -/
def yearText (y : Int) : String :=
  if y < 0 then "-" ++ padded 4 y.natAbs
  else if y ≤ 9999 then padded 4 y.natAbs
  else "+" ++ padded 4 y.natAbs

/-- Year, month and day with hyphens between them. -/
def Date.text (d : Date) : String :=
  yearText d.year ++ "-" ++ padded 2 d.month ++ "-" ++ padded 2 d.day

/-- A fraction of a second in microseconds: nothing, three digits or six, the fewest that are
exact. -/
def fractionText (micros : Nat) : String :=
  if micros = 0 then ""
  else if micros % 1000 = 0 then "." ++ padded 3 (micros / 1000)
  else "." ++ padded 6 micros

/-- The text of a day number. -/
def dayText (days : Int) : String :=
  match date? days with
  | some d => d.text
  | none => intText days

/-- The text of an instant: date, time of day and fraction of a second. -/
def instantText (micros : Int) : String :=
  let seconds := micros / 1000000
  let secondOfDay := (seconds % 86400).toNat
  match date? (seconds / 86400) with
  | some d =>
    d.text ++ " " ++ padded 2 (secondOfDay / 3600) ++ ":" ++ padded 2 (secondOfDay / 60 % 60) ++
      ":" ++ padded 2 (secondOfDay % 60) ++ fractionText (micros % 1000000).toNat
  | none => intText micros

end Sharding.Calendar
