import Rendezvous.Store.Fault

/-!
# Refusals

Why a service did not do what it was asked. `Refusal.kind` sorts the reasons, `Refusal.message`
words them.
-/

namespace Rendezvous

/-- What went wrong with the store behind a service. -/
inductive Trouble
  | fault (fault : Fault)
  /-- A host command took longer than its limit in milliseconds. -/
  | noResponse (limit : Nat)
  /-- A settings command took longer than its limit. -/
  | timedOut
  deriving DecidableEq, Repr

def Trouble.message : Trouble → String
  | .fault f => f.message
  | .noResponse limit => "no response within " ++ Decimal.natural limit ++ "ms"
  | .timedOut => "timed out"

inductive Refusal
  | notFound
  | noAddress
  | noPort
  | notAnObject
  | unauthorized
  | unavailable (trouble : Trouble)
  /-- Every join code that was tried was taken. -/
  | full (attempts : Nat)
  deriving DecidableEq, Repr

/-- The kinds of refusals that a caller can tell apart. -/
inductive RefusalKind
  | notFound
  | invalidInput
  | unauthorized
  | unavailable
  | full
  deriving DecidableEq, Repr

namespace Refusal

def kind : Refusal → RefusalKind
  | .notFound => .notFound
  | .noAddress | .noPort | .notAnObject => .invalidInput
  | .unauthorized => .unauthorized
  | .unavailable _ => .unavailable
  | .full _ => .full

def message : Refusal → String
  | .notFound => "host not found"
  | .noAddress => "invalid input: address is required"
  | .noPort => "invalid input: port is required"
  | .notAnObject => "invalid input: settings must be a JSON object"
  | .unauthorized => "invalid API key"
  | .unavailable trouble => "storage unavailable: " ++ trouble.message
  | .full attempts => "no free join code after " ++ Decimal.natural attempts ++ " attempts"

end Refusal
end Rendezvous
