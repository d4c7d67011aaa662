import Rendezvous.Time.Instant
import Rendezvous.Text.Utf8
import Rendezvous.Text.Blank
import Rendezvous.Text.Decimal

/-!
# Fields of written instants

The parts that the strict and the relaxed reader share: the ways a text can fail to be an instant,
the fraction of a second, the offset from UTC, and the instant that all fields make up.
-/

namespace Rendezvous.Stamp

/-- Why a text is no instant. -/
inductive Flaw
  /-- The text ends too early. -/
  | premature
  /-- A number is too large, or there is no such date or time. -/
  | outOfRange
  /-- A character stands where another is needed. -/
  | invalid
  /-- The instant is followed by something. -/
  | trailing
  /-- The local time exists but its instant is out of range. -/
  | impossible
  deriving DecidableEq, Repr

def Flaw.message : Flaw → String
  | .premature => "premature end of input"
  | .outOfRange => "input is out of range"
  | .invalid => "input contains invalid characters"
  | .trailing => "trailing input"
  | .impossible => "no possible date and time matching input"

/-- Without the white space at the start. -/
def skipBlank (bytes : List UInt8) : List UInt8 :=
  match _h : Utf8.next? bytes with
  | some (c, rest) => if isBlank c then skipBlank rest else bytes
  | none => bytes
termination_by bytes.length
decreasing_by exact Utf8.length_of_next? ‹_›

/-- The number that the digits at the start spell, at least one and at most `most` of them. -/
def number (most : Nat) (bytes : List UInt8) : Except Flaw (Nat × List UInt8) :=
  let digits := (bytes.take most).takeWhile Decimal.isDigit
  if bytes.isEmpty then .error .premature
  else if digits.isEmpty then .error .invalid
  else .ok (Decimal.value digits, bytes.drop digits.length)

def literal (expected : UInt8) : List UInt8 → Except Flaw (List UInt8)
  | [] => .error .premature
  | b :: rest => if b = expected then .ok rest else .error .invalid

/-- The nanoseconds after a decimal point; digits past the ninth are dropped. -/
def nanoseconds (bytes : List UInt8) : Except Flaw (Nat × List UInt8) := do
  let (n, rest) ← number 9 bytes
  let count := bytes.length - rest.length
  return (n * Nat.pow 10 (9 - count), rest.dropWhile Decimal.isDigit)

/-- A sign of an offset: whether it is negative. -/
def offsetSign : List UInt8 → Except Flaw (Bool × List UInt8)
  | 0x2B :: rest => .ok (false, rest)
  | 0x2D :: rest => .ok (true, rest)
  | 0xE2 :: 0x88 :: 0x92 :: rest => .ok (true, rest)
  | [] => .error .premature
  | _ => .error .invalid

def twoDigits : List UInt8 → Except Flaw (Nat × List UInt8)
  | a :: b :: rest =>
    if Decimal.isDigit a && Decimal.isDigit b then .ok (Decimal.value [a, b], rest)
    else .error .invalid
  | _ => .error .premature

/-- The offset from UTC in seconds; `between` takes what separates its hours from its minutes. -/
def offset (between : List UInt8 → Except Flaw (List UInt8)) (bytes : List UInt8) :
    Except Flaw (Int × List UInt8) :=
  match bytes with
  | 0x5A :: rest => .ok (0, rest)
  | 0x7A :: rest => .ok (0, rest)
  | _ => do
    let (negative, rest) ← offsetSign bytes
    let (hours, rest) ← twoDigits rest
    let rest ← between rest
    let (minutes, rest) ← twoDigits rest
    if 59 < minutes then throw .outOfRange
    let seconds : Int := (hours * 3600 + minutes * 60 : Nat)
    return (if negative then -seconds else seconds, rest)

/-- The fields of a written instant. -/
structure Fields where
  date : Date
  hour : Nat
  minute : Nat
  second : Nat
  nanos : Nat
  deriving DecidableEq, Repr

/-- There is such a date and such a time of day; second 60 is the leap second of any minute. -/
def Fields.Exist (f : Fields) : Prop :=
  f.date.Valid ∧ f.hour < 24 ∧ f.minute < 60 ∧ f.second ≤ 60

instance (f : Fields) : Decidable f.Exist := by unfold Fields.Exist; infer_instance

/-- The instant at which the fields are the local time `offset` seconds ahead of UTC. -/
def Fields.instant? (f : Fields) (offset : Int) : Option Instant :=
  let (second, extra) := if f.second = 60 then (59, 1000000000) else (f.second, 0)
  let time : Int := (f.hour * 3600 + f.minute * 60 + second : Nat)
  Instant.of? (f.date.toDays * 86400 + time - offset) (f.nanos + extra)

end Rendezvous.Stamp
