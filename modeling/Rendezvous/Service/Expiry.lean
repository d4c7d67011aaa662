import Rendezvous.Time.Instant

/-!
# Expiry

A host lives for a number of seconds after it was last refreshed. A number too large for a
duration stands for the longest one. A host refreshed in the future is live.
-/

namespace Rendezvous.Expiry

def duration? (seconds : Nat) : Option Duration :=
  if seconds ≤ 9223372036854775 then some (.ofSeconds seconds) else none

/-- The duration of a number of seconds, or the longest one. -/
def lifetime (seconds : Nat) : Duration := (duration? seconds).getD .longest

/-- Less than a lifetime has gone by since the refresh. -/
def isLive (lifetime : Duration) (updatedAt now : Instant) : Bool :=
  decide ((now.since updatedAt).nanoseconds < lifetime.nanoseconds)

end Rendezvous.Expiry
