import Rendezvous.JoinCode
import Rendezvous.Service.Expiry
import Rendezvous.Service.Interaction
import Rendezvous.Service.Refusal
import Rendezvous.Text.Blank

/-!
# The directory

What the directory of hosts does: it registers a host under a join code that no stored host has,
finds and removes hosts by id or code, refreshes them, and lists the live ones. A listing first
decides which hosts are live and then evicts the others; how that goes does not change its answer.
-/

namespace Rendezvous

/-- The terms of a directory: lifetimes in seconds, limits in milliseconds. -/
structure Terms where
  lifetimeSeconds : Nat := 432000
  codeAttempts : Nat := 8
  storageLimit : Nat := 2000
  evictionLimit : Nat := 250
  deriving DecidableEq, Repr

def Terms.lifetime (t : Terms) : Duration := Expiry.lifetime t.lifetimeSeconds

/-- The number of join codes that are tried, at least one. -/
def Terms.attempts (t : Terms) : Nat := if t.codeAttempts = 0 then 1 else t.codeAttempts

/-- An interaction that leads to a value or is refused. -/
abbrev Attempt (α : Type) := Interaction (Except Refusal α)

namespace Attempt

variable {α β : Type}

def refuse (refusal : Refusal) : Attempt α := .done (.error refusal)

/-- Goes on with the answer of a store call; `late` is the trouble of a passed deadline. -/
def ask (command : Command) (limit : Nat) (late : Trouble) (next : command.Answer → Attempt α) :
    Attempt α :=
  .call command limit fun
    | .answered answer => next answer
    | .failed fault => refuse (.unavailable (.fault fault))
    | .timedOut => refuse (.unavailable late)

end Attempt

namespace Directory

open Attempt

variable (terms : Terms)

/-- A call of the host store under the directory's limit. -/
def ask {α : Type} (command : Command) (next : command.Answer → Attempt α) : Attempt α :=
  Attempt.ask command terms.storageLimit (.noResponse terms.storageLimit) next

def found : Option Host → Except Refusal Host
  | some host => .ok host
  | none => .error .notFound

/-- Tries join codes until the store takes one; `left` more, the next being attempt `number`. -/
def tryCodes (address : String) (port : Port) : (left : Nat) → (number : Nat) → Attempt Host
  | 0, number => .log (.gaveUp (number - 1)) (refuse (.full (number - 1)))
  | left + 1, number =>
    .readClock fun now => .draw fun draw =>
      let code := JoinCode.ofSeed (Seed.ofDraw now draw)
      ask terms (.insert ⟨address, port, code, now⟩) fun
        | some host => .log (.registered host) (.done (.ok host))
        | none => .log (.codeTaken code number) (tryCodes address port left (number + 1))

def register (a : Announcement) : Attempt Host :=
  match a.address.filter (¬ isBlankText ·), a.port with
  | none, _ => refuse .noAddress
  | some _, none => refuse .noPort
  | some address, some port => tryCodes terms address port terms.attempts 1

def findById (id : String) : Attempt Host := ask terms (.findById id) fun h => .done (found h)

def findByCode (code : String) : Attempt Host :=
  ask terms (.findByCode code) fun h => .done (found h)

def removed : Option Host → Attempt Host
  | some host => .log (.deleted host) (.done (.ok host))
  | none => refuse .notFound

def deleteById (id : String) : Attempt Host := ask terms (.deleteById id) removed

def deleteByCode (code : String) : Attempt Host := ask terms (.deleteByCode code) removed

/-- Starts the lifetime of a host anew. -/
def refresh (id : String) : Attempt Host :=
  .readClock fun now => ask terms (.touch id now) fun h => .done (found h)

/-- The live hosts, oldest first; the others are evicted on the way. -/
def listLive : Attempt (List Host) :=
  ask terms .list fun hosts => .readClock fun now =>
    let (live, expired) := hosts.partition fun h => Expiry.isLive terms.lifetime h.updatedAt now
    if expired.isEmpty then .done (.ok live)
    else .evict expired terms.evictionLimit fun removed =>
      .log (.swept (removed.count true) expired.length) (.done (.ok live))

end Directory
end Rendezvous
