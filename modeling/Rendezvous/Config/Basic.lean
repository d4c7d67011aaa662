import Rendezvous.Service.Settings

/-!
# Configuration

What the daemon is told when it starts. Everything has a default but the token. `Config.check`
refuses a lifetime of zero seconds and one that is no duration.
-/

namespace Rendezvous

inductive Backend
  | database
  | memory
  deriving DecidableEq, Repr

def Backend.name : Backend → String
  | .database => "sqlite"
  | .memory => "memory"

structure Config where
  backend : Backend := .database
  databasePath : String := "/var/lib/hostdir/hosts.db"
  terms : Terms := {}
  /-- The address that requests are taken at. -/
  listen : String := "[::]:8080"
  token : Option String := none
  deriving DecidableEq, Repr

/-- Why a configuration cannot be used. -/
inductive ConfigFault
  | noLifetime
  | longLifetime (seconds : Nat)
  deriving DecidableEq, Repr

def ConfigFault.message : ConfigFault → String
  | .noLifetime => "directory.ttl_secs must be greater than zero"
  | .longLifetime seconds =>
    "directory.ttl_secs = " ++ Decimal.natural seconds ++ " is out of range"

/-- What the environment has for a variable. -/
inductive EnvironmentValue
  | unset
  | text (value : String)
  /-- Bytes that are no text. -/
  | notUnicode
  deriving DecidableEq, Repr

def EnvironmentValue.text? : EnvironmentValue → Option String
  | .text value => some value
  | .unset | .notUnicode => none

/-- A variable that was looked up as text. -/
instance : Coe (Option String) EnvironmentValue where
  coe
    | some value => .text value
    | none => .unset

namespace Config

/-- The lifetime is a duration and not zero. -/
def check (c : Config) : Except ConfigFault Unit :=
  if c.terms.lifetimeSeconds = 0 then .error .noLifetime
  else if (Expiry.duration? c.terms.lifetimeSeconds).isNone then
    .error (.longLifetime c.terms.lifetimeSeconds)
  else .ok ()

def guard (c : Config) : Guard := ⟨c.token, c.terms.storageLimit⟩

end Config
end Rendezvous
