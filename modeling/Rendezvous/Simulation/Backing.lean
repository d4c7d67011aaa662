import Rendezvous.Service.Interaction
import Rendezvous.Store.Disk
import Rendezvous.Store.Memory
import Rendezvous.Store.Worker

/-!
# Backings

What keeps the hosts behind the services: the store in memory, or a worker with its database. A
parked worker takes commands into its queue and answers none of them until it is released.
-/

namespace Rendezvous

inductive Backing
  | memory (store : Memory)
  | database (worker : Worker) (parked : Bool)

namespace Backing

/-- How a call ends for a caller that waits as long as it may. -/
def run (b : Backing) (draws : Draws) (command : Command) : Outcome command × Backing × Draws :=
  match b with
  | .memory store =>
    let (answer, store, draws) := store.run draws command
    (.answered answer, .memory store, draws)
  | .database worker false =>
    let (result, worker, draws) := worker.perform draws command
    (.ofResult result, .database worker false, draws)
  | .database worker true =>
    match worker.submit command with
    | (none, worker) => (.failed .stopped, .database worker true, draws)
    | (some caller, worker) => (.timedOut, .database (worker.hangUp caller) true, draws)

def release (b : Backing) (draws : Draws) : Backing × Draws :=
  match b with
  | .memory store => (.memory store, draws)
  | .database worker _ =>
    let (_, worker, draws) := worker.handleAll worker.queue.length draws
    (.database worker false, draws)

/-- Keeps the worker from answering. -/
def park : Backing → Backing
  | .memory store => .memory store
  | .database worker _ => .database worker true

/-- Stops the worker, as soon as it is not parked; whether it was there to be stopped. -/
def shutdown (b : Backing) (draws : Draws) : Bool × Backing × Draws :=
  match b with
  | .memory store => (true, .memory store, draws)
  | .database worker parked =>
    let (taken, worker) := worker.submitStop
    let b := Backing.database worker parked
    if parked then (taken, b, draws) else (taken, b.release draws)

/-- Changes the tables behind the worker's back. -/
def alter (b : Backing) (change : Database → Database) : Backing :=
  match b with
  | .memory store => .memory store
  | .database worker parked =>
    .database { worker with database := change worker.database } parked

def population : Backing → Nat
  | .memory store => store.hosts.length
  | .database worker _ => (worker.database.hosts.getD []).length

end Backing

inductive Home
  | memory
  | database (path : String)

/-- An open home: what keeps the hosts, and where the disk keeps them afterwards. -/
structure OpenHome where
  backing : Backing
  place : Option Location := none
  disk : Disk

namespace Home

def openOn (home : Home) (disk : Disk) : Except Disk.OpenFault OpenHome :=
  match home with
  | .memory => .ok { backing := .memory {}, disk }
  | .database path => do
    let opened ← disk.openDatabase path
    return ⟨.database { database := opened.content } false, opened.place, opened.disk⟩

end Home

def OpenHome.closed (h : OpenHome) : Disk :=
  match h.backing with
  | .memory _ => h.disk
  | .database worker _ => h.disk.close h.place worker.database

end Rendezvous
