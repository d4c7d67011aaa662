import Rendezvous.Simulation.World

/-!
# Schedules

Interactions side by side. They are started in order, each going on until it first has to wait.
When all of them wait, time goes on to the earliest moment that one waits for, and those whose
moment has come go on, again in order.
-/

namespace Rendezvous

variable {α : Type}

/-- An interaction that has gone on for a while: it is over, or waits for calls. -/
inductive Progress (α : Type)
  | finished (value : α)
  | calling (command : Command) (flight : Flight) (next : Outcome command → Interaction α)
  | evicting (slots : List Slot) (limit : Nat) (next : List Bool → Interaction α)

/-- Goes on until the interaction has to wait. -/
def Interaction.advance : Interaction α → World → Progress α × World
  | .done value, w => (.finished value, w)
  | .readClock next, w =>
    let (now, w) := w.readClock
    (next now).advance w
  | .draw next, w =>
    let (uuid, w) := w.draw
    (next uuid).advance w
  | .call command limit next, w =>
    let (flight, w) := w.launch command limit
    if flight.wake ≤ w.elapsed then
      let (outcome, w) := w.land command flight.treatment
      (next outcome).advance w
    else (.calling command flight next, w)
  | .evict hosts limit next, w =>
    let (slots, w) := w.launchAll limit hosts
    let (slots, w) := w.landDue limit slots
    if slots.all Slot.isOver then (next (slots.map Slot.removed)).advance w
    else (.evicting slots limit next, w)
  | .log event next, w => next.advance (w.note event)

namespace Progress

/-- When the interaction next goes on. -/
def wakes : Progress α → List Nat
  | .finished _ => []
  | .calling _ flight _ => [flight.wake]
  | .evicting slots _ _ => slots.filterMap Slot.wake?

def value? : Progress α → Option α
  | .finished value => some value
  | _ => none

/-- Goes on as far as the time lets it. -/
def resume (p : Progress α) (w : World) : Progress α × World :=
  match p with
  | .finished value => (.finished value, w)
  | .calling command flight next =>
    if flight.wake ≤ w.elapsed then
      let (outcome, w) := w.land command flight.treatment
      (next outcome).advance w
    else (.calling command flight next, w)
  | .evicting slots limit next =>
    let (slots, w) := w.landDue limit slots
    if slots.all Slot.isOver then (next (slots.map Slot.removed)).advance w
    else (.evicting slots limit next, w)

end Progress

namespace Schedule

def resumeAll (w : World) : List (Progress α) → List (Progress α) × World
  | [] => ([], w)
  | p :: rest =>
    let (p, w) := p.resume w
    let (rest, w) := resumeAll w rest
    (p :: rest, w)

/-- Goes from one moment that is waited for to the next, for at most `rounds` of them. -/
def settle : (rounds : Nat) → World → List (Progress α) → List (Progress α) × World
  | 0, w, all => (all, w)
  | rounds + 1, w, all =>
    match (all.flatMap Progress.wakes).min? with
    | none => (all, w)
    | some time =>
      let (all, w) := resumeAll (w.waitUntil time) all
      settle rounds w all

end Schedule
end Rendezvous
