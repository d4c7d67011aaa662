import Rendezvous.Simulation.World

/-!
# Runs

An interaction that has the world to itself: each of its requests is answered before it goes on.
-/

namespace Rendezvous

variable {α : Type}

def Interaction.run : Interaction α → World → α × World
  | .done value, w => (value, w)
  | .readClock next, w =>
    let (now, w) := w.readClock
    (next now).run w
  | .draw next, w =>
    let (uuid, w) := w.draw
    (next uuid).run w
  | .call command limit next, w =>
    let (outcome, w) := w.call command limit
    (next outcome).run w
  | .evict hosts limit next, w =>
    let (removed, w) := w.evict hosts limit
    (next removed).run w
  | .log event next, w => next.run (w.note event)

end Rendezvous
