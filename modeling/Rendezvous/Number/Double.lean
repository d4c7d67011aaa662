/-!
# Binary floating-point numbers

`Double` is a finite number of 53 significant bits, held exactly: a sign, a significand below
`2 ^ 53` and a power of two from `-1074` to `971`. `ofRatio` is the only step that rounds: to the
nearest number, a tie to the even significand.
-/

namespace Rendezvous

/-- The number `± significand * 2 ^ exponent`. -/
structure Double where
  negative : Bool
  significand : Nat
  exponent : Int
  deriving DecidableEq, Repr

namespace Double

def zero (negative : Bool) : Double := ⟨negative, 0, -1074⟩

/-- The whole number nearest to `num / den`, a tie going to the even one. -/
def nearest (num den : Nat) : Nat :=
  let q := num / den
  let r := num % den
  if 2 * r < den ∨ (2 * r = den ∧ q % 2 = 0) then q else q + 1

/-- `num / den` over `2 ^ e`, as a ratio of whole numbers. -/
def scaled (num den : Nat) (e : Int) : Nat × Nat :=
  if 0 ≤ e then (num, den * Nat.pow 2 e.toNat) else (num * Nat.pow 2 (-e).toNat, den)

/-- The power of two of the last significant bit of `num / den`. -/
def unitExponent (num den : Nat) : Int :=
  let e : Int := (num.log2 : Int) - den.log2 - 52
  let (n, d) := scaled num den e
  let e := if n < d * Nat.pow 2 52 then e - 1 else e
  if e < -1074 then -1074 else e

/-- The number nearest to `num / den`, unless that lies past the largest one. -/
def ofRatio (negative : Bool) (num den : Nat) : Option Double :=
  if num = 0 then some (zero negative)
  else
    let e := unitExponent num den
    let (n, d) := scaled num den e
    let m := nearest n d
    let (m, e) := if m = Nat.pow 2 53 then (Nat.pow 2 52, e + 1) else (m, e)
    if 971 < e then none
    else if m = 0 then some (zero negative)
    else some ⟨negative, m, e⟩

/-- The size of the number, without its sign, as a ratio of whole numbers. -/
def ratio (x : Double) : Nat × Nat :=
  if 0 ≤ x.exponent then (x.significand * Nat.pow 2 x.exponent.toNat, 1)
  else (x.significand, Nat.pow 2 (-x.exponent).toNat)

def neg (x : Double) : Double := { x with negative := !x.negative }

def ofNat (n : Nat) : Option Double := ofRatio false n 1

def mul (x y : Double) : Option Double :=
  let (a, b) := x.ratio
  let (c, d) := y.ratio
  ofRatio (x.negative != y.negative) (a * c) (b * d)

def div (x y : Double) : Option Double :=
  let (a, b) := x.ratio
  let (c, d) := y.ratio
  if c = 0 then none else ofRatio (x.negative != y.negative) (a * d) (b * c)

def tenPow (n : Nat) : Option Double := ofRatio false (Nat.pow 10 n) 1

/-- The whole number the value is, if it is one. -/
def toInt? (x : Double) : Option Int :=
  let (n, d) := x.ratio
  if n % d = 0 then some (if x.negative then -(n / d : Nat) else (n / d : Nat)) else none

end Double
end Rendezvous
