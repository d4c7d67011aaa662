import Rendezvous.Text.Hex
import Rendezvous.Text.Utf8

/-!
# Percent-encoded text

`%` and two hexadecimal digits stand for a byte; anything else stands for itself.
-/

namespace Rendezvous.Percent

def digit? (b : UInt8) : Option Nat := Hex.value? (Char.ofNat b.toNat)

/-- The bytes that percent-encoded bytes stand for. -/
def decodeBytes : List UInt8 → List UInt8
  | 0x25 :: hi :: lo :: rest =>
    match digit? hi, digit? lo with
    | some h, some l => UInt8.ofNat (h * 16 + l) :: decodeBytes rest
    | _, _ => 0x25 :: decodeBytes (hi :: lo :: rest)
  | b :: rest => b :: decodeBytes rest
  | [] => []

def decode? (text : String) : Option String := Utf8.decode? (decodeBytes (Utf8.encode text))

end Rendezvous.Percent
