import Mathlib

/-!
# Days and hours of the archive

A `Date` is a real day of the proleptic Gregorian calendar, as `datetime.date`
has it: its month and its day exist. An hour key is a day and an hour.
-/

namespace Tape.Bake

/-- The leap years of the Gregorian calendar. -/
def isLeap (year : Nat) : Bool := year % 4 = 0 ∧ (year % 100 ≠ 0 ∨ year % 400 = 0)

/-- How many days a month has. -/
def daysInMonth (year month : Nat) : Nat :=
  if month = 2 ∧ isLeap year = true then 29
  else [31, 28, 31, 30, 31, 30, 31, 31, 30, 31, 30, 31].getD (month - 1) 0

/-- `datetime.date`. -/
structure Date where
  year : Nat
  month : Nat
  day : Nat
  yearIn : 1 ≤ year ∧ year ≤ 9999
  monthIn : 1 ≤ month ∧ month ≤ 12
  dayIn : 1 ≤ day ∧ day ≤ daysInMonth year month
  deriving DecidableEq, Repr

namespace Date

/-- `date.toordinal`: day 1 is the first of January of year 1. -/
def ordinal (d : Date) : Nat :=
  let y := d.year - 1
  y * 365 + y / 4 - y / 100 + y / 400 +
    ((List.range (d.month - 1)).map fun m => daysInMonth d.year (m + 1)).sum + d.day

/-- The first day of the Unix clock. -/
def epoch : Date := ⟨1970, 1, 1, by decide, by decide, by decide⟩

/-- A number in at least this many digits. -/
def padded (width n : Nat) : String :=
  let digits := Nat.toDigits 10 n
  String.ofList (List.replicate (width - digits.length) '0' ++ digits)

/-- `date.isoformat`. -/
def isoformat (d : Date) : String :=
  padded 4 d.year ++ "-" ++ padded 2 d.month ++ "-" ++ padded 2 d.day

end Date

/-- Nanoseconds of a second. -/
def nsPerS : Int := 1000000000

/-- Nanoseconds of an hour. -/
def nsPerHour : Int := 3600 * nsPerS

/-- One UTC hour of the archive. -/
structure HourKey where
  date : Date
  hour : Nat
  hourIn : hour < 24
  deriving DecidableEq, Repr

namespace HourKey

/-- The hour a day starts with is one of its hours. -/
theorem first_lt : 0 < 24 := by decide

/-- The first instant of the hour. -/
def startWallNs (k : HourKey) : Int :=
  (((k.date.ordinal : Int) - Date.epoch.ordinal) * 86400 + k.hour * 3600) * nsPerS

/-- The first instant after the hour. -/
def endWallNs (k : HourKey) : Int := k.startWallNs + nsPerHour

end HourKey

end Tape.Bake
