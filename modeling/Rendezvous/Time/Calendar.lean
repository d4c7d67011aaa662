/-!
# The civil calendar

Dates of the Gregorian calendar, extended to all years, and their count of days since 1970-01-01.
`Date.toDays` counts in years that begin with March, so that a leap day is the last day of its
year; `Date.ofDays` takes the count apart again.
-/

namespace Rendezvous

def isLeapYear (year : Int) : Bool := year % 4 == 0 && (year % 100 != 0 || year % 400 == 0)

def daysInMonth (year : Int) (month : Nat) : Nat :=
  match month with
  | 2 => if isLeapYear year then 29 else 28
  | 4 | 6 | 9 | 11 => 30
  | _ => 31

/-- A year, a month from 1 to 12 and a day from 1. -/
structure Date where
  year : Int
  month : Nat
  day : Nat
  deriving DecidableEq, Repr

namespace Date

def Valid (d : Date) : Prop :=
  1 ≤ d.month ∧ d.month ≤ 12 ∧ 1 ≤ d.day ∧ d.day ≤ daysInMonth d.year d.month

instance (d : Date) : Decidable d.Valid := by unfold Valid; infer_instance

/-- Days since 1970-01-01. -/
def toDays (d : Date) : Int :=
  let year := if d.month ≤ 2 then d.year - 1 else d.year
  let month := if d.month ≤ 2 then d.month + 9 else d.month - 3
  let day : Int := (153 * month + 2) / 5 + d.day - 1
  year * 365 + year / 4 - year / 100 + year / 400 + day - 719468

/-- The date a number of days after 1970-01-01. -/
def ofDays (days : Int) : Date :=
  let shifted := days + 719468
  let cycle := shifted / 146097
  let r := (shifted % 146097).toNat
  let century := if 3 < r / 36524 then 3 else r / 36524
  let r := r - century * 36524
  let four := r / 1461
  let r := r % 1461
  let one := if 3 < r / 365 then 3 else r / 365
  let day := r - one * 365
  let month := (5 * day + 2) / 153
  let year := cycle * 400 + (century * 100 + four * 4 + one : Nat)
  { year := if month < 10 then year else year + 1
    month := if month < 10 then month + 3 else month - 9
    day := day - (153 * month + 2) / 5 + 1 }

end Date
end Rendezvous
