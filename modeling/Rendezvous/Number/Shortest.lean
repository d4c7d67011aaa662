import Rendezvous.Number.Double

/-!
# Decimal digits of binary numbers

`Expansion` is a decimal number as its digits and the place of its point. `Double.shortest` gives
the fewest digits that no other binary number is nearer to, and `Double.significant` a fixed number
of them, rounded.
-/

namespace Rendezvous

/-- The number `0.d₁d₂d₃… * 10 ^ point`, with a sign; zero has the one digit `0` and point `1`. -/
structure Expansion where
  negative : Bool
  digits : List Char
  point : Int
  deriving DecidableEq, Repr

namespace Expansion

/-- The expansion of `n * 10 ^ e`, without zeros at its end. -/
def ofScaled (negative : Bool) (n : Nat) (e : Int) : Expansion :=
  if n = 0 then ⟨negative, ['0'], 1⟩
  else
    let all := Nat.toDigits 10 n
    let kept := (all.reverse.dropWhile (· == '0')).reverse
    ⟨negative, kept, e + all.length⟩

end Expansion

namespace Double

/-- The number of decimal digits before the point of `num / den`; zero or less below `0.1`. -/
def decimalPoint (num den : Nat) : Int :=
  let guess : Int := ((num.log2 : Int) - den.log2 - 1) * 1233 / 4096
  -- the guess is never above the answer and at most two below it
  let reached (p : Int) : Bool :=
    if 0 ≤ p then den * Nat.pow 10 p.toNat ≤ num else den ≤ num * Nat.pow 10 (-p).toNat
  if reached (guess + 2) then guess + 3
  else if reached (guess + 1) then guess + 2
  else if reached guess then guess + 1
  else guess

/-- `num / den` over `10 ^ e`, as a ratio of whole numbers. -/
def decimalScaled (num den : Nat) (e : Int) : Nat × Nat :=
  if 0 ≤ e then (num, den * Nat.pow 10 e.toNat) else (num * Nat.pow 10 (-e).toNat, den)

/-- Four times the size of the number and of the two ends of the interval that rounds to it. -/
structure Span where
  value : Nat
  low : Nat
  high : Nat
  unit : Nat
  closed : Bool

/-- The interval of reals nearer to `x` than to any other number, over a common unit. -/
def span (x : Double) : Span :=
  let low := if x.significand = Nat.pow 2 52 ∧ -1074 < x.exponent then 1 else 2
  let (a, b) := (⟨false, 1, x.exponent⟩ : Double).ratio
  ⟨4 * x.significand * a, (4 * x.significand - low) * a, (4 * x.significand + 2) * a, 4 * b,
    x.significand % 2 = 0⟩

/-- The point `n * 10 ^ e` lies in the interval. -/
def Span.holds (s : Span) (n : Nat) (e : Int) : Bool :=
  -- n * 10 ^ e against low / unit and high / unit
  let (p, q) : Nat × Nat :=
    if 0 ≤ e then (n * Nat.pow 10 e.toNat * s.unit, 1) else (n * s.unit, Nat.pow 10 (-e).toNat)
  if s.closed then s.low * q ≤ p && p ≤ s.high * q else s.low * q < p && p < s.high * q

/-- The nearest of the value's two neighbours on the grid of `10 ^ e` that lie in the interval. -/
def Span.pick? (s : Span) (e : Int) : Option Nat :=
  let (n, d) := decimalScaled s.value s.unit e
  let below := n / d
  let r := n % d
  match s.holds below e, s.holds (below + 1) e with
  | true, true => some (if 2 * r < d ∨ (2 * r = d ∧ below % 2 = 0) then below else below + 1)
  | true, false => some below
  | false, true => some (below + 1)
  | false, false => none

/-- Looks for a point of the interval on finer and finer grids. -/
def Span.search (s : Span) (point : Int) : (tries : Nat) → (digits : Nat) → Nat × Int
  | 0, digits =>
    let (n, d) := decimalScaled s.value s.unit (point - digits)
    (nearest n d, point - digits)
  | tries + 1, digits =>
    match s.pick? (point - digits) with
    | some n => (n, point - digits)
    | none => s.search point tries (digits + 1)

/-- The fewest digits that read back as the number, and of those the nearest. -/
def shortest (x : Double) : Expansion :=
  if x.significand = 0 then ⟨x.negative, ['0'], 1⟩
  else
    let (num, den) := x.ratio
    let (n, e) := x.span.search (decimalPoint num den) 17 1
    .ofScaled x.negative n e

/-- The number rounded to `count` significant digits. -/
def significant (count : Nat) (x : Double) : Expansion :=
  if x.significand = 0 then ⟨x.negative, ['0'], 1⟩
  else
    let (num, den) := x.ratio
    let e := decimalPoint num den - count
    let (n, d) := decimalScaled num den e
    .ofScaled x.negative (nearest n d) e

end Double
end Rendezvous
