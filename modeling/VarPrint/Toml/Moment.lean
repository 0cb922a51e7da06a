/-
# Dates and times

A moment is a date, a time of day, or both with an optional distance to universal time. The grammar
fixes only how many digits each part has, so a moment as written may lie outside the calendar or the
clock. Fractions of a second play no part.
-/

import VarPrint.Text.Quoted

namespace VarPrint.Toml

/-- A day of the calendar as written. -/
structure Date where
  year : Nat
  month : Nat
  day : Nat
deriving DecidableEq, Repr

/-- A time of day as written. -/
structure Clock where
  hour : Nat
  minute : Nat
  second : Nat
deriving DecidableEq, Repr

/-- A distance to universal time, with the runes that give it; its direction plays no part. -/
structure Zone where
  written : List Char
  hours : Nat
  minutes : Nat
deriving DecidableEq, Repr

/-- What a moment consists of. -/
inductive Moment where
  | date (date : Date)
  | clock (clock : Clock)
  | both (date : Date) (clock : Clock) (zone : Option Zone)
deriving DecidableEq, Repr

/-- A part of a moment that has a range. -/
inductive MomentPart where
  | month
  | day
  | hour
  | minute
  | second
deriving DecidableEq, Repr

/-- Why a moment is none. -/
inductive MomentProblem where
  | outOfRange (part : MomentPart)
  /-- Runes after the time that cannot be taken for its distance to universal time. -/
  | extraText (written : List Char)
deriving DecidableEq, Repr

/-- The name of a part in messages. -/
def MomentPart.name : MomentPart → Bytes
  | month => utf8 "month"
  | day => utf8 "day"
  | hour => utf8 "hour"
  | minute => utf8 "minute"
  | second => utf8 "second"

/-- The wording of a problem. -/
def MomentProblem.text : MomentProblem → Bytes
  | outOfRange part => part.name ++ utf8 " out of range"
  | extraText written => utf8 "extra text: " ++ Quoted.encode (Bytes.ofRunes written)

namespace Date

/-- A year of 366 days: every fourth, of the full centuries only every fourth. -/
def isLeap (year : Nat) : Bool :=
  year % 4 == 0 && (year % 100 != 0 || year % 400 == 0)

/-- The number of days in a month. -/
def daysIn (year month : Nat) : Nat :=
  if month = 2 then if isLeap year then 29 else 28
  else if month = 4 ∨ month = 6 ∨ month = 9 ∨ month = 11 then 30
  else 31

/-- The month is none of the twelve. -/
def monthProblem? (date : Date) : Option MomentProblem :=
  if 1 ≤ date.month ∧ date.month ≤ 12 then none else some (.outOfRange .month)

/-- The day is none of its month. -/
def dayProblem? (date : Date) : Option MomentProblem :=
  if 1 ≤ date.day ∧ date.day ≤ daysIn date.year date.month then none else some (.outOfRange .day)

end Date

/-- The first part of a time that is out of range; there is no leap second. -/
def Clock.problem? (clock : Clock) : Option MomentProblem :=
  if 24 ≤ clock.hour then some (.outOfRange .hour)
  else if 60 ≤ clock.minute then some (.outOfRange .minute)
  else if 60 ≤ clock.second then some (.outOfRange .second)
  else none

/-- The distance has at most 24 hours and 60 minutes, both included. -/
def Zone.isInRange (zone : Zone) : Bool :=
  zone.hours ≤ 24 && zone.minutes ≤ 60

/-- What is wrong with a moment. The day is looked at last, and where it or the zone is out of range
a zone counts as text that does not belong to the moment. -/
def Moment.problem? : Moment → Option MomentProblem
  | .date day => day.monthProblem?.or day.dayProblem?
  | .clock time => time.problem?
  | .both day time none => (day.monthProblem?.or time.problem?).or day.dayProblem?
  | .both day time (some zone) =>
    (day.monthProblem?.or time.problem?).or
      (if day.dayProblem?.isNone && zone.isInRange then none else some (.extraText zone.written))

end VarPrint.Toml
