import Rendezvous.Text.Decimal

/-!
# Addresses to listen at

An address is a name or number and, behind the last colon, a port.
-/

namespace Rendezvous

inductive AddressFault
  | noPort
  | badPort
  deriving DecidableEq, Repr

def AddressFault.message : AddressFault → String
  | .noPort => "invalid socket address"
  | .badPort => "invalid port value"

namespace Address

/-- A port: decimal digits, perhaps behind a plus sign, of a number below 65536. -/
def port? (text : List Char) : Option Nat :=
  let digits := match text with
    | '+' :: rest => rest
    | _ => text
  if digits.isEmpty || !digits.all Char.isDigit then none
  else
    let n := digits.foldl (fun n c => n * 10 + (c.toNat - 48)) 0
    if n < 65536 then some n else none

/-- The name and the port of an address. -/
def parse (text : String) : Except AddressFault (String × Nat) :=
  let port := (text.toList.reverse.takeWhile (· ≠ ':')).reverse
  if port.length = text.toList.length then .error .noPort
  else match port? port with
    | some n => .ok (String.ofList (text.toList.take (text.toList.length - port.length - 1)), n)
    | none => .error .badPort

end Address
end Rendezvous
