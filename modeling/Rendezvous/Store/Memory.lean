import Rendezvous.Random.Draws
import Rendezvous.Store.Command
import Rendezvous.Store.Index

/-!
# The store in memory

Hosts by id, the id of each join code, and the settings document. No command fails. An insert
draws an id only when the code is free, and draws again while the id is taken.
-/

namespace Rendezvous

structure Memory where
  hosts : Index Host := []
  codes : Index String := []
  settings : Option Json := none

namespace Memory

/-- An id that no stored host has, and the draws that are left; at most `tries` draws are made. -/
def freshId (hosts : Index Host) : (tries : Nat) → Draws → Option String × Draws
  | 0, draws => (none, draws)
  | tries + 1, draws =>
    let (uuid, draws) := draws.draw
    let id := uuid.simple
    if hosts.contains id then freshId hosts tries draws else (some id, draws)

/-- Enough tries to get past the script and as many numbered draws as there are hosts. -/
def tries (m : Memory) (draws : Draws) : Nat := draws.scripted.length + m.hosts.length + 1

def insert (m : Memory) (candidate : Candidate) (draws : Draws) : Option Host × Memory × Draws :=
  if m.codes.contains candidate.code then (none, m, draws)
  else
    match freshId m.hosts (m.tries draws) draws with
    | (none, draws) => (none, m, draws)
    | (some id, draws) =>
      let host := candidate.host id
      let m := { m with hosts := m.hosts.set id host, codes := m.codes.set host.code id }
      (some host, m, draws)

def findById (m : Memory) (id : String) : Option Host := m.hosts.get? id

def findByCode (m : Memory) (code : String) : Option Host :=
  (m.codes.get? code).bind m.hosts.get?

def deleteById (m : Memory) (id : String) : Option Host × Memory :=
  match m.hosts.get? id with
  | none => (none, m)
  | some host => (some host, { m with hosts := m.hosts.erase id, codes := m.codes.erase host.code })

def deleteByCode (m : Memory) (code : String) : Option Host × Memory :=
  match m.codes.get? code with
  | none => (none, m)
  | some id => m.deleteById id

/-- All hosts, oldest first, those of one instant by id. -/
def list (m : Memory) : List Host := m.hosts.values.mergeSort Host.le

def touch (m : Memory) (id : String) (moment : Instant) : Option Host × Memory :=
  match m.hosts.get? id with
  | none => (none, m)
  | some host =>
    let host := { host with updatedAt := moment }
    (some host, { m with hosts := m.hosts.set id host })

def merge (m : Memory) (patch : Fields) : Json × Memory :=
  let merged := Json.overlay m.settings patch
  (merged, { m with settings := some merged })

def run (m : Memory) (draws : Draws) : (command : Command) → command.Answer × Memory × Draws
  | .insert candidate => m.insert candidate draws
  | .findById id => (m.findById id, m, draws)
  | .findByCode code => (m.findByCode code, m, draws)
  | .deleteById id => let (host, m) := m.deleteById id; (host, m, draws)
  | .deleteByCode code => let (host, m) := m.deleteByCode code; (host, m, draws)
  | .list => (m.list, m, draws)
  | .touch id moment => let (host, m) := m.touch id moment; (host, m, draws)
  | .settings => (m.settings, m, draws)
  | .merge patch => let (merged, m) := m.merge patch; (merged, m, draws)

end Memory
end Rendezvous
