import Rendezvous.Time.Calendar

/-!
# Instants and durations

An `Instant` is a second since 1970-01-01T00:00:00Z and a fraction of it in nanoseconds. The
fraction of the last second of a minute may go on for a second more: that is a leap second, and
the only place where one can be. `since` and `advance` count leap seconds as seconds of the day
that follow the one they extend.
-/

namespace Rendezvous

/-- A signed length of time in nanoseconds. -/
structure Duration where
  nanoseconds : Int
  deriving DecidableEq, Repr

namespace Duration

def ofSeconds (seconds : Int) : Duration := ⟨seconds * 1000000000⟩

/-- The longest duration: the greatest number of whole milliseconds in 64 bits. -/
def longest : Duration := ⟨9223372036854775807 * 1000000⟩

/-- Whole seconds, rounded down. -/
def seconds (d : Duration) : Int := d.nanoseconds / 1000000000

/-- What the whole seconds leave. -/
def subsecond (d : Duration) : Nat := (d.nanoseconds % 1000000000).toNat

end Duration

/-- A point in time between the years -262143 and 262142. -/
structure Instant where
  seconds : Int
  nanos : Nat
  least : -8334601228800 ≤ seconds := by omega
  greatest : seconds ≤ 8210266876799 := by omega
  nanos_lt : nanos < 2000000000 := by omega
  leap : 1000000000 ≤ nanos → seconds % 60 = 59 := by omega
  deriving DecidableEq

namespace Instant

/-- The instant with these parts, if there is one. -/
def of? (seconds : Int) (nanos : Nat) : Option Instant :=
  if h : -8334601228800 ≤ seconds ∧ seconds ≤ 8210266876799 ∧ nanos < 2000000000 ∧
      (1000000000 ≤ nanos → seconds % 60 = 59) then
    some ⟨seconds, nanos, h.1, h.2.1, h.2.2.1, h.2.2.2⟩
  else none

def epoch : Instant := ⟨0, 0, by omega, by omega, by omega, by omega⟩

instance : Inhabited Instant := ⟨epoch⟩

def le (a b : Instant) : Bool :=
  decide (a.seconds < b.seconds ∨ (a.seconds = b.seconds ∧ a.nanos ≤ b.nanos))

def date (t : Instant) : Date := .ofDays (t.seconds / 86400)

def secondOfDay (t : Instant) : Nat := (t.seconds % 86400).toNat

def isLeap (t : Instant) : Bool := 1000000000 ≤ t.nanos

/-- Nanoseconds since 1970-01-01T00:00:00Z, a leap second counted onto the second it extends. -/
def totalNanos (t : Instant) : Int := t.seconds * 1000000000 + t.nanos

/-- Microseconds since 1970-01-01T00:00:00Z, rounded down. -/
def totalMicros (t : Instant) : Int := t.seconds * 1000000 + (t.nanos / 1000 : Nat)

/-- The time from `b` to `a`. A leap second that lies between the two times of day counts. -/
def since (a b : Instant) : Duration :=
  let extra : Int :=
    if b.secondOfDay < a.secondOfDay ∧ b.isLeap then 1
    else if a.secondOfDay < b.secondOfDay ∧ a.isLeap then -1
    else 0
  ⟨(a.seconds - b.seconds + extra) * 1000000000 + (a.nanos - b.nanos)⟩

/-- The instant `d` later, if it is in range. A leap second is left by the shortest way. -/
def advance? (t : Instant) (d : Duration) : Option Instant :=
  let whole := d.nanoseconds.tdiv 1000000000
  let part := d.nanoseconds.tmod 1000000000
  if t.isLeap ∧ whole = 0 ∧ ¬ (0 < part ∧ 2000000000 ≤ t.nanos + part) then
    of? t.seconds (t.nanos + part).toNat
  else
    let seconds := if t.isLeap ∧ (whole < 0) then t.seconds + 1 else t.seconds
    let nanos : Int := if t.isLeap then t.nanos - 1000000000 else t.nanos
    let total := (seconds + whole) * 1000000000 + nanos + part
    of? (total / 1000000000) (total % 1000000000).toNat

end Instant
end Rendezvous
