import Rendezvous.Store.Database

/-!
# The store worker

One worker owns the database and handles what callers put into its queue, in order. A caller that
gives up is known as gone; a write of a caller that is gone is passed over. A request to stop ends
the work: what is queued behind it is dropped.
-/

namespace Rendezvous

/-- What waits in a worker's queue. -/
inductive Errand
  | request (caller : Nat) (command : Command)
  | stop

abbrev Result (command : Command) := Except Fault command.Answer

structure Worker where
  database : Database
  queue : List Errand := []
  /-- The number of the next caller. -/
  callers : Nat := 0
  /-- Callers that do not wait any more. -/
  gone : List Nat := []
  stopped : Bool := false

/-- An errand that was dealt with: the caller with its result, if any was sent. -/
inductive Handled
  | sent (caller : Nat) (command : Command) (result : Result command)
  | passedOver (caller : Nat)
  | stopped

namespace Worker

/-- Queues a command, unless the worker has stopped; the caller's number. -/
def submit (w : Worker) (command : Command) : Option Nat × Worker :=
  if w.stopped then (none, w)
  else
    (some w.callers,
      { w with
        queue := w.queue ++ [.request w.callers command]
        callers := w.callers + 1 })

/-- Queues a request to stop; whether the worker was there to take it. -/
def submitStop (w : Worker) : Bool × Worker :=
  if w.stopped then (false, w) else (true, { w with queue := w.queue ++ [.stop] })

/-- A caller does not wait any more. -/
def hangUp (w : Worker) (caller : Nat) : Worker := { w with gone := caller :: w.gone }

/-- The write is of a caller that is gone. -/
def isAbandoned (w : Worker) (caller : Nat) (command : Command) : Bool :=
  command.isWrite && w.gone.contains caller

/-- Deals with the errand at the head of the queue. -/
def handleNext (w : Worker) (draws : Draws) : Option Handled × Worker × Draws :=
  match w.queue with
  | [] => (none, w, draws)
  | .stop :: _ => (some .stopped, { w with queue := [], stopped := true }, draws)
  | .request caller command :: rest =>
    let w := { w with queue := rest }
    if w.isAbandoned caller command then (some (.passedOver caller), w, draws)
    else
      let (result, database, draws) := w.database.run draws command
      (some (.sent caller command result), { w with database }, draws)

/-- What a caller that waits gets from a worker with an empty queue. -/
def perform (w : Worker) (draws : Draws) (command : Command) : Result command × Worker × Draws :=
  if w.stopped then (.error .stopped, w, draws)
  else
    let (result, database, draws) := w.database.run draws command
    (result, { w with database, callers := w.callers + 1 }, draws)

/-- Deals with errands until the queue is empty; `count` is at least its length. -/
def handleAll (w : Worker) : (count : Nat) → Draws → List Handled × Worker × Draws
  | 0, draws => ([], w, draws)
  | count + 1, draws =>
    match w.handleNext draws with
    | (none, w, draws) => ([], w, draws)
    | (some handled, w, draws) =>
      let (more, w, draws) := handleAll w count draws
      (handled :: more, w, draws)

end Worker
end Rendezvous
