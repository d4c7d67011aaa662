import Rendezvous.Time.Instant
import Rendezvous.Text.Decimal

/-!
# Written instants

`Stamp.short` writes an instant with the fewest of 0, 3, 6 or 9 fraction digits that lose nothing,
`Stamp.full` always with nine. Years outside 0000 to 9999 have a sign; a leap second is second 60.
-/

namespace Rendezvous.Stamp

/-- Four digits, or a sign and at least four. -/
def yearDigits (year : Int) : List Char :=
  if 0 ≤ year ∧ year ≤ 9999 then Decimal.fixedDigits 4 year.toNat
  else (if year < 0 then '-' else '+') :: Decimal.paddedDigits 4 year.natAbs

def wholeDigits (t : Instant) : List Char :=
  let d := t.date
  let s := t.secondOfDay
  let second := if t.isLeap then s % 60 + 1 else s % 60
  yearDigits d.year ++ '-' :: Decimal.fixedDigits 2 d.month ++ '-' :: Decimal.fixedDigits 2 d.day ++
    'T' :: Decimal.fixedDigits 2 (s / 3600) ++ ':' :: Decimal.fixedDigits 2 (s / 60 % 60) ++
    ':' :: Decimal.fixedDigits 2 second

/-- The fraction of the second, without the second a leap adds. -/
def fraction (t : Instant) : Nat := if t.isLeap then t.nanos - 1000000000 else t.nanos

def shortFraction (nanos : Nat) : List Char :=
  if nanos = 0 then []
  else if nanos % 1000000 = 0 then '.' :: Decimal.fixedDigits 3 (nanos / 1000000)
  else if nanos % 1000 = 0 then '.' :: Decimal.fixedDigits 6 (nanos / 1000)
  else '.' :: Decimal.fixedDigits 9 nanos

def short (t : Instant) : String :=
  String.ofList (wholeDigits t ++ shortFraction (fraction t) ++ ['Z'])

def full (t : Instant) : String :=
  String.ofList (wholeDigits t ++ '.' :: Decimal.fixedDigits 9 (fraction t) ++ ['Z'])

end Rendezvous.Stamp
