import Rendezvous.Host.Basic
import Rendezvous.Json.Basic

/-!
# Store commands

What can be asked of a store of hosts and of the one settings document, and the type of each
answer. `none` as an answer means that no host has the key or, for an insert, that the host was
refused because its code is taken.
-/

namespace Rendezvous

inductive Command
  | insert (candidate : Candidate)
  | findById (id : String)
  | findByCode (code : String)
  | deleteById (id : String)
  | deleteByCode (code : String)
  /-- All hosts, live or not, oldest first. -/
  | list
  /-- Sets when a host was last refreshed. -/
  | touch (id : String) (moment : Instant)
  | settings
  /-- Lays fields over the settings document and answers with the result. -/
  | merge (patch : Fields)

namespace Command

@[reducible] def Answer : Command → Type
  | .insert _ | .findById _ | .findByCode _ | .deleteById _ | .deleteByCode _ => Option Host
  | .list => List Host
  | .touch _ _ => Option Host
  | .settings => Option Json
  | .merge _ => Json

def isWrite : Command → Bool
  | .insert _ | .deleteById _ | .deleteByCode _ | .touch _ _ | .merge _ => true
  | .findById _ | .findByCode _ | .list | .settings => false

end Command
end Rendezvous
