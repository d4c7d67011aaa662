import Rendezvous.Random.Uuid
import Rendezvous.Service.Event
import Rendezvous.Store.Command

/-!
# Interactions

An `Interaction` is what a service does, without saying how the world answers: it reads the clock,
draws an identifier, calls the store under a deadline, evicts hosts side by side, writes to the
log, and in the end has a value. What the world answers decides how it goes on.
-/

namespace Rendezvous

/-- How a call of the store ended for the caller. -/
inductive Outcome (command : Command)
  | answered (answer : command.Answer)
  | failed (fault : Fault)
  /-- The deadline passed first. -/
  | timedOut

def Outcome.ofResult {command : Command} : Except Fault command.Answer → Outcome command
  | .ok answer => .answered answer
  | .error fault => .failed fault

abbrev Eviction (host : Host) := Outcome (.deleteById host.id)

def Eviction.removed {host : Host} : Eviction host → Bool
  | .answered (some _) => true
  | _ => false

/-- What the log says about an eviction; nothing when the host was gone already. -/
def Eviction.event? {host : Host} (limit : Nat) : Eviction host → Option Event
  | .answered (some _) => some (.evicted host)
  | .answered none => none
  | .failed fault => some (.evictionFailed host fault)
  | .timedOut => some (.evictionSkipped host limit)

/-- Limits are in milliseconds. -/
inductive Interaction (α : Type)
  | done (value : α)
  | readClock (next : Instant → Interaction α)
  | draw (next : Uuid → Interaction α)
  | call (command : Command) (limit : Nat) (next : Outcome command → Interaction α)
  /-- Deletes hosts side by side, each under a deadline of its own: which were removed. -/
  | evict (hosts : List Host) (limit : Nat) (next : List Bool → Interaction α)
  | log (event : Event) (next : Interaction α)

namespace Interaction

variable {α β : Type}

/-- Goes on with another interaction once the value is there. -/
def bind : Interaction α → (α → Interaction β) → Interaction β
  | .done value, f => f value
  | .readClock next, f => .readClock fun t => (next t).bind f
  | .draw next, f => .draw fun u => (next u).bind f
  | .call command limit next, f => .call command limit fun o => (next o).bind f
  | .evict hosts limit next, f => .evict hosts limit fun removed => (next removed).bind f
  | .log event next, f => .log event (next.bind f)

def map (f : α → β) (i : Interaction α) : Interaction β := i.bind fun value => .done (f value)

end Interaction
end Rendezvous
