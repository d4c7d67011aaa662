import Rendezvous.Number.Shortest
import Rendezvous.Text.Decimal

/-!
# Layouts of decimal numbers

How an expansion is written: positional with a point, or with one digit before the point and a
power of ten. A `Layout` says which sizes are positional and how the power is written.
-/

namespace Rendezvous

/-- The powers of ten written positionally, and the fewest digits of a written power. -/
structure Layout where
  least : Option Int
  greatest : Option Int
  pointed : Bool
  powerWidth : Nat

namespace Layout

/-- JSON numbers are positional from `1e-5` to below `1e16`. -/
def json : Layout := ⟨some (-5), some 15, false, 1⟩

/-- Messages about configuration files write every number positionally. -/
def plain : Layout := ⟨none, none, false, 1⟩

/-- Numbers stored as text are positional from `1e-4` to below `1e15`, and always have a point. -/
def stored : Layout := ⟨some (-4), some 14, true, 2⟩

/-- Digits around a point, with at least one on each side. -/
def positional (x : Expansion) : List Char :=
  let zeros (n : Int) := List.replicate n.toNat '0'
  if x.point ≤ 0 then ['0', '.'] ++ zeros (-x.point) ++ x.digits
  else
    let whole := x.digits.take x.point.toNat
    let part := x.digits.drop x.point.toNat
    whole ++ zeros (x.point - x.digits.length) ++ '.' :: (if part.isEmpty then ['0'] else part)

def scientific (pointed : Bool) (powerWidth : Nat) (x : Expansion) : List Char :=
  let power := x.point - 1
  let part := x.digits.drop 1
  let part := if part.isEmpty then (if pointed then ['.', '0'] else []) else '.' :: part
  x.digits.take 1 ++ part ++ 'e' :: (if power < 0 then '-' else '+') ::
    Decimal.paddedDigits powerWidth power.natAbs

def write (l : Layout) (x : Expansion) : String :=
  let power := x.point - 1
  let small := l.least.any fun e => decide (power < e)
  let large := l.greatest.any fun e => decide (e < power)
  let body := if small || large then scientific l.pointed l.powerWidth x else positional x
  String.ofList (if x.negative then '-' :: body else body)

end Layout
end Rendezvous
