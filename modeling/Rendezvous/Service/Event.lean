import Rendezvous.Host.Basic
import Rendezvous.Store.Fault

/-!
# Events

What a service writes to its log: the level, the part of the program it comes from, and the line.
-/

namespace Rendezvous

inductive Level
  | debug
  | info
  | warn
  | error
  deriving DecidableEq, Repr

def Level.name : Level → String
  | .debug => "DEBUG"
  | .info => "INFO"
  | .warn => "WARN"
  | .error => "ERROR"

def Level.weight : Level → Nat
  | .debug => 0
  | .info => 1
  | .warn => 2
  | .error => 3

inductive Event
  | registered (host : Host)
  | codeTaken (code : String) (attempt : Nat)
  | gaveUp (attempts : Nat)
  | deleted (host : Host)
  | evicted (host : Host)
  | evictionFailed (host : Host) (fault : Fault)
  | evictionSkipped (host : Host) (limit : Nat)
  | swept (count total : Nat)
  | settingsUpdated
  | noToken
  | requestFailed (message : String)

namespace Event

def level : Event → Level
  | .registered _ | .deleted _ | .swept _ _ | .settingsUpdated => .info
  | .codeTaken _ _ | .evicted _ => .debug
  | .gaveUp _ | .evictionFailed _ _ | .evictionSkipped _ _ | .noToken => .warn
  | .requestFailed _ => .error

def message : Event → String
  | .registered h =>
    "Registered host " ++ h.id ++ " at " ++ h.address ++ ":" ++ Decimal.natural h.port.val ++
      " with code " ++ h.code
  | .codeTaken code attempt =>
    "Join code " ++ code ++ " taken (attempt " ++ Decimal.natural attempt ++ ")"
  | .gaveUp attempts =>
    "Gave up finding a free join code after " ++ Decimal.natural attempts ++ " attempts"
  | .deleted h => "Deleted host " ++ h.id ++ " (" ++ h.code ++ ")"
  | .evicted h => "Evicted host " ++ h.id ++ " (" ++ h.code ++ ")"
  | .evictionFailed h fault => "Failed to evict host " ++ h.id ++ ": " ++ fault.message
  | .evictionSkipped h limit =>
    "Evicting host " ++ h.id ++ " took longer than " ++ Decimal.natural limit ++ "ms, skipped"
  | .swept count total =>
    "Swept " ++ Decimal.natural count ++ " of " ++ Decimal.natural total ++ " expired hosts"
  | .settingsUpdated => "Settings updated"
  | .noToken => "No settings token configured; settings updates are disabled"
  | .requestFailed message => "Request failed: " ++ message

/-- The event tells how the eviction of one host went. -/
def isEviction : Event → Bool
  | .evicted _ | .evictionFailed _ _ | .evictionSkipped _ _ => true
  | _ => false

end Event
end Rendezvous
