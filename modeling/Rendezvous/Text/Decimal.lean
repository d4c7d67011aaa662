/-!
# Decimal digits

`natural` and `integer` write a number without leading zeros, `padded` with at least a given
number of digits. `value` reads digits back.
-/

namespace Rendezvous.Decimal

def digit? (b : UInt8) : Option Nat :=
  if 48 ≤ b.toNat ∧ b.toNat ≤ 57 then some (b.toNat - 48) else none

def isDigit (b : UInt8) : Bool := 48 ≤ b.toNat && b.toNat ≤ 57

/-- The digits of `n`, most significant first; `0` is one digit. -/
def naturalDigits (n : Nat) : List Char := Nat.toDigits 10 n

def natural (n : Nat) : String := String.ofList (naturalDigits n)

/-- At least `width` digits, filled up with zeros on the left. -/
def paddedDigits (width n : Nat) : List Char :=
  let digits := naturalDigits n
  List.replicate (width - digits.length) '0' ++ digits

def integer (n : Int) : String :=
  if n < 0 then "-" ++ natural n.natAbs else natural n.natAbs

/-- The last `width` digits of `n`, most significant first. -/
def fixedDigits : (width : Nat) → (n : Nat) → List Char
  | 0, _ => []
  | width + 1, n => fixedDigits width (n / 10) ++ [Char.ofNat (48 + n % 10)]

/-- The number that decimal digits spell. -/
def value (digits : List UInt8) : Nat := digits.foldl (fun n b => n * 10 + (b.toNat - 48)) 0

end Rendezvous.Decimal
