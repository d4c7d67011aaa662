import Rendezvous.Simulation.Backing
import Rendezvous.Simulation.Disturbance

/-!
# The world around the services

A clock that is read, draws that are taken, a store that is called through disturbances, a journal
that is written, and the milliseconds that have gone by. Time only goes by when everything waits.
A call whose delay is longer than its limit never reaches the store; one whose delay is just as
long does.
-/

namespace Rendezvous

structure World where
  clock : Instant
  /-- How far the clock moves after each reading. -/
  tick : Duration := ⟨0⟩
  draws : Draws := {}
  backing : Backing
  disturbances : List Disturbance := []
  /-- The calls that were started, the latest first. -/
  calls : List Operation := []
  clockReads : Nat := 0
  /-- In milliseconds. -/
  elapsed : Nat := 0
  /-- What was logged, the latest first. -/
  journal : List Event := []

/-- A call under way: when its caller hears of it, and how it is treated then; `none` when its
deadline has passed. -/
structure Flight where
  wake : Nat
  treatment : Option Treatment
  deriving DecidableEq, Repr

/-- One of several evictions side by side: under way, or over. -/
inductive Slot
  | waiting (host : Host) (flight : Flight)
  | ended (removed : Bool)

def Slot.isOver : Slot → Bool
  | .waiting _ _ => false
  | .ended _ => true

def Slot.removed : Slot → Bool
  | .waiting _ _ => false
  | .ended removed => removed

def Slot.wake? : Slot → Option Nat
  | .waiting _ flight => some flight.wake
  | .ended _ => none

namespace World

/-- The time on the clock. A clock that cannot move further stands still. -/
def readClock (w : World) : Instant × World :=
  (w.clock,
    { w with clock := (w.clock.advance? w.tick).getD w.clock, clockReads := w.clockReads + 1 })

def draw (w : World) : Uuid × World :=
  let (uuid, draws) := w.draws.draw
  (uuid, { w with draws })

def note (w : World) (event : Event) : World := { w with journal := event :: w.journal }

def waitUntil (w : World) (time : Nat) : World :=
  if w.elapsed < time then { w with elapsed := time } else w

/-! ## Calls -/

def launch (w : World) (command : Command) (limit : Nat) : Flight × World :=
  let (met, disturbances) := Disturbance.meet command w.disturbances
  let delay := met.elim 0 (·.delay)
  let treatment := met.elim .pass (·.treatment)
  let w := { w with disturbances, calls := command.operation :: w.calls }
  if delay ≤ limit then (⟨w.elapsed + delay, some treatment⟩, w)
  else (⟨w.elapsed + limit, none⟩, w)

/-- Lets a command through to the store. -/
def reach (w : World) (command : Command) : Outcome command × World :=
  let (outcome, backing, draws) := w.backing.run w.draws command
  (outcome, { w with backing, draws })

def land (w : World) (command : Command) : Option Treatment → Outcome command × World
  | none => (.timedOut, w)
  | some .pass => w.reach command
  | some (.fail messages) => (.failed (.trouble messages), w)
  | some .empty =>
    match command.emptyAnswer? with
    | some answer => (.answered answer, w)
    | none => w.reach command

/-- A whole call, with nothing beside it. -/
def call (w : World) (command : Command) (limit : Nat) : Outcome command × World :=
  let (flight, w) := w.launch command limit
  (w.waitUntil flight.wake).land command flight.treatment

/-! ## Evictions -/

def launchAll (w : World) (limit : Nat) : List Host → List Slot × World
  | [] => ([], w)
  | host :: rest =>
    let (flight, w) := w.launch (.deleteById host.id) limit
    let (slots, w) := launchAll w limit rest
    (.waiting host flight :: slots, w)

def landEviction (w : World) (limit : Nat) (host : Host) (treatment : Option Treatment) :
    Bool × World :=
  let (eviction, w) := w.land (.deleteById host.id) treatment
  let eviction : Eviction host := eviction
  (eviction.removed, (eviction.event? limit).elim w w.note)

/-- Ends the evictions whose time has come. -/
def landDue (w : World) (limit : Nat) : List Slot → List Slot × World
  | [] => ([], w)
  | .ended removed :: rest =>
    let (slots, w) := landDue w limit rest
    (.ended removed :: slots, w)
  | .waiting host flight :: rest =>
    if flight.wake ≤ w.elapsed then
      let (removed, w) := w.landEviction limit host flight.treatment
      let (slots, w) := landDue w limit rest
      (.ended removed :: slots, w)
    else
      let (slots, w) := landDue w limit rest
      (.waiting host flight :: slots, w)

/-- Goes through times in order, ending the evictions that are due at each. -/
def landAt (w : World) (limit : Nat) (slots : List Slot) : (times : List Nat) → List Slot × World
  | [] => (slots, w)
  | time :: times =>
    let (slots, w) := (w.waitUntil time).landDue limit slots
    landAt w limit slots times

/-- Whole evictions side by side, with nothing beside them: which removed their host. -/
def evict (w : World) (hosts : List Host) (limit : Nat) : List Bool × World :=
  let (slots, w) := w.launchAll limit hosts
  let (slots, w) := w.landAt limit slots ((slots.filterMap Slot.wake?).mergeSort)
  (slots.map Slot.removed, w)

end World
end Rendezvous
