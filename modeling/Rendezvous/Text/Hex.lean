/-!
# Hexadecimal digits

Two digits a byte, high half first; `lower` writes small letters and `upper` capitals.
-/

namespace Rendezvous.Hex

/-- The digit of value `n`, with `a` as the letter of value ten. -/
def digit (a : Char) (n : Nat) : Char :=
  if n < 10 then Char.ofNat (n + 48) else Char.ofNat (n - 10 + a.toNat)

def digits (a : Char) (bytes : List UInt8) : List Char :=
  bytes.flatMap fun b => [digit a (b.toNat / 16), digit a (b.toNat % 16)]

def lower (bytes : List UInt8) : String := String.ofList (digits 'a' bytes)

def upper (bytes : List UInt8) : String := String.ofList (digits 'A' bytes)

/-- The value of a hexadecimal digit in either case. -/
def value? (c : Char) : Option Nat :=
  if '0' ≤ c ∧ c ≤ '9' then some (c.toNat - 48)
  else if 'a' ≤ c ∧ c ≤ 'f' then some (c.toNat - 87)
  else if 'A' ≤ c ∧ c ≤ 'F' then some (c.toNat - 55)
  else none

/-- The bytes that pairs of digits spell. -/
def bytes? : List Char → Option (List UInt8)
  | [] => some []
  | [_] => none
  | hi :: lo :: rest => do
    let h ← value? hi
    let l ← value? lo
    let more ← bytes? rest
    some (UInt8.ofNat (h * 16 + l) :: more)

end Rendezvous.Hex
