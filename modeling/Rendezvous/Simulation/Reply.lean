import Rendezvous.Api.Message
import Rendezvous.Service.Interaction
import Rendezvous.Simulation.Disturbance
import Rendezvous.Store.Disk

/-!
# Replies

What a step of a session leads to.
-/

namespace Rendezvous

structure Counters where
  /-- The kinds of calls that were started, with their numbers. -/
  calls : List (Operation × Nat)
  draws : Nat
  clockReads : Nat
  deriving DecidableEq, Repr

inductive Reply
  /-- Nothing to tell but that it was done. -/
  | done
  | host (host : Host)
  | noHost
  | hosts (hosts : List Host)
  | document (document : Option Json)
  | refused (refusal : Refusal)
  | storeFailed (fault : Fault)
  | notReopened (fault : Disk.OpenFault)
  | response (response : Api.Response)
  | moment (moment : Instant)
  | counted (counters : Counters)
  | elapsed (milliseconds : Nat)
  | together (replies : List Reply)
  /-- The step still waits. -/
  | unfinished

namespace Reply

def ofAttempt {α : Type} (reply : α → Reply) : Except Refusal α → Reply
  | .ok value => reply value
  | .error refusal => .refused refusal

def ofAnswer : (command : Command) → command.Answer → Reply
  | .insert _, h | .findById _, h | .findByCode _, h | .deleteById _, h | .deleteByCode _, h =>
    h.elim .noHost .host
  | .list, listed => .hosts listed
  | .touch _ _, h => h.elim .noHost .host
  | .settings, current => .document current
  | .merge _, merged => .document (some merged)

def ofOutcome (command : Command) : Outcome command → Reply
  | .answered answer => ofAnswer command answer
  | .failed fault => .storeFailed fault
  | .timedOut => .unfinished

end Reply
end Rendezvous
