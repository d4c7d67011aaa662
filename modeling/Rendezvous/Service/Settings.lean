import Rendezvous.Service.Directory

/-!
# The settings document

Anyone may read the settings; who presents the configured token may lay new fields over them.
Without a configured token nobody may.
-/

namespace Rendezvous

/-- The token that lets settings be changed, and the limit of store calls in milliseconds. -/
structure Guard where
  token : Option String := none
  storageLimit : Nat := 2000
  deriving DecidableEq, Repr

namespace Guard

variable (g : Guard)

def authorize (presented : Option String) : Except Refusal Unit :=
  match g.token, presented with
  | some expected, some given => if expected = given then .ok () else .error .unauthorized
  | _, _ => .error .unauthorized

def read : Attempt (Option Json) :=
  Attempt.ask .settings g.storageLimit .timedOut fun v => .done (.ok v)

/-- Lays the fields of `body` over the settings. -/
def update (presented : Option String) (body : Json) : Attempt Json :=
  match g.authorize presented with
  | .error refusal => .done (.error refusal)
  | .ok () =>
    match body.fields? with
    | none => .done (.error .notAnObject)
    | some patch =>
      Attempt.ask (.merge patch) g.storageLimit .timedOut fun merged =>
        .log .settingsUpdated (.done (.ok merged))

def warning : Option Event := if g.token.isNone then some .noToken else none

end Guard
end Rendezvous
