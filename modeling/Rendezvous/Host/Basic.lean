import Rendezvous.Time.Instant

/-!
# Hosts

A `Host` is a registered game host, found by its id or by its join code. A `Candidate` is a host
that has no id yet, an `Announcement` is what a host says when it registers, and a `Departure`
is what is told about a host that was removed.
-/

namespace Rendezvous

abbrev Port := Fin 65536

def Port.ofInt? (n : Int) : Option Port :=
  if h : 0 ≤ n ∧ n < 65536 then some ⟨n.toNat, by omega⟩ else none

/-- A registered host. Its `updatedAt` is the last time it registered or was refreshed. -/
structure Host where
  id : String
  address : String
  port : Port
  code : String
  createdAt : Instant
  updatedAt : Instant
  deriving DecidableEq

/-- A host about to be stored; the store gives it an id. -/
structure Candidate where
  address : String
  port : Port
  code : String
  moment : Instant
  deriving DecidableEq

def Candidate.host (c : Candidate) (id : String) : Host :=
  ⟨id, c.address, c.port, c.code, c.moment, c.moment⟩

/-- A request to register; what is missing is refused later, with a message of its own. -/
structure Announcement where
  address : Option String := none
  port : Option Port := none
  deriving DecidableEq

/-- A host that was removed, with a message that says so. -/
structure Departure where
  message : String
  host : Host
  deriving DecidableEq

def Departure.of (host : Host) : Departure := ⟨"Removed host with id: " ++ host.id, host⟩

namespace Host

/-- Hosts in the order of a listing: oldest first, and by id within one instant. -/
def le (a b : Host) : Bool :=
  if a.createdAt = b.createdAt then decide (a.id ≤ b.id) else a.createdAt.le b.createdAt

end Host
end Rendezvous
