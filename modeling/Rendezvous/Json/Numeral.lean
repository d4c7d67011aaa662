import Rendezvous.Json.Basic
import Rendezvous.Json.Cursor

/-!
# Numerals

A numeral without fraction and exponent is a whole number if 64 bits hold it. Every other one is
a real: its digits, as many as 64 bits hold, are rounded to a binary number, and the power of ten
that is left is multiplied or divided on in one more rounding.
-/

namespace Rendezvous.Json

inductive Numeral
  | int (value : Int)
  | real (value : Double)
  deriving DecidableEq, Repr

def Numeral.found : Numeral → Found
  | .int n => .int n
  | .real x => .real x

def Numeral.json : Numeral → Json
  | .int n => .int n
  | .real x => .real x

/-- The greatest whole number of 64 bits. -/
def greatestWord : Nat := 18446744073709551615

/-- Appends digits to a number up to the first that would take it past 64 bits; those left. -/
def appendDigits : List UInt8 → Nat → Nat × List UInt8
  | [], n => (n, [])
  | d :: rest, n =>
    let m := n * 10 + (d.toNat - 48)
    if greatestWord < m then (n, d :: rest) else appendDigits rest m

/-- `x * 10 ^ e` for `e` down to -308, in one rounding. -/
def shiftTen (x : Double) (e : Int) : Option Double :=
  (Double.tenPow e.natAbs).bind fun p => if 0 ≤ e then x.mul p else x.div p

/-- Divides by `10 ^ 308` until what is left of the exponent is at least -308. -/
def scaleDown : (tries : Nat) → Double → Int → Double × Int
  | 0, x, e => (x, e)
  | tries + 1, x, e =>
    if -308 ≤ e ∨ x.significand = 0 then (x, e)
    else scaleDown tries ((shiftTen x (-308)).getD (.zero false)) (e + 308)

/-- The real `n * 10 ^ e`; none when it is too large. Three steps of `scaleDown` reach zero. -/
def realOf (negative : Bool) (n : Nat) (e : Int) : Option Double := do
  let x ← Double.ofNat n
  if x.significand = 0 then return .zero negative
  if 308 < e then failure
  let (x, e) := scaleDown 3 x e
  if x.significand = 0 then return .zero negative
  let x ← shiftTen x e
  return { x with negative }

def isDigitAt (c : Cursor) : Bool := c.peek?.any Decimal.isDigit

def leadingDigits (c : Cursor) : List UInt8 := c.rest.takeWhile Decimal.isDigit

def finishReal (negative : Bool) (n : Nat) (e : Int) (c : Cursor) :
    Except Failure (Numeral × Cursor) :=
  match realOf negative n e with
  | some x => .ok (.real x, c)
  | none => c.fail .numberOutOfRange

/-- An exponent has more digits than fit 31 bits: the value is zero or out of range. -/
def hugeExponent (negative : Bool) (n : Nat) (positive : Bool) (c : Cursor) :
    Except Failure (Numeral × Cursor) :=
  if n ≠ 0 ∧ positive then c.fail .numberOutOfRange
  else .ok (.real (.zero negative), c.skip (leadingDigits c).length)

def exponentDigits (negative : Bool) (n : Nat) (start : Int) (positive : Bool) :
    (digits : List UInt8) → (e : Nat) → Cursor → Except Failure (Numeral × Cursor)
  | [], e, c => finishReal negative n (if positive then start + e else start - e) c
  | d :: rest, e, c =>
    let m := e * 10 + (d.toNat - 48)
    if 2147483647 < m then hugeExponent negative n positive c.next
    else exponentDigits negative n start positive rest m c.next

/-- The exponent whose letter is next. -/
def exponent (negative : Bool) (n : Nat) (start : Int) (c : Cursor) :
    Except Failure (Numeral × Cursor) :=
  let c := c.next
  let signed := c.peek? == some 0x2B || c.peek? == some 0x2D
  let positive := c.peek? != some 0x2D
  let c := if signed then c.next else c
  match c.peek? with
  | none => c.fail (.endOf .value)
  | some d =>
    if Decimal.isDigit d then
      exponentDigits negative n start positive (leadingDigits c).tail (d.toNat - 48) c.next
    else c.next.fail .invalidNumber

def isExponentLetter (b : Option UInt8) : Bool := b == some 0x65 || b == some 0x45

/-- The fraction whose point is next, after whole digits that stand for `n * 10 ^ e`. -/
def fraction (negative : Bool) (n : Nat) (e : Int) (c : Cursor) :
    Except Failure (Numeral × Cursor) :=
  let c := c.next
  let digits := leadingDigits c
  if digits.isEmpty then
    if c.rest.isEmpty then c.failNext (.endOf .value) else c.failNext .invalidNumber
  else
    let (n, left) := appendDigits digits n
    let e := e - (digits.length - left.length : Nat)
    let c := c.skip digits.length
    if isExponentLetter c.peek? then exponent negative n e c else finishReal negative n e c

/-- What follows whole digits that stand for `n * 10 ^ e`; `exact` if none were dropped. -/
def afterDigits (negative exact : Bool) (n : Nat) (e : Int) (c : Cursor) :
    Except Failure (Numeral × Cursor) :=
  if c.peek? = some 0x2E then fraction negative n e c
  else if isExponentLetter c.peek? then exponent negative n e c
  else if ¬ exact then finishReal negative n e c
  else if ¬ negative then .ok (.int n, c)
  else if n = 0 ∨ 9223372036854775808 < n then
    match Double.ofNat n with
    | some x => .ok (.real x.neg, c)
    | none => c.fail .numberOutOfRange
  else .ok (.int (-n), c)

/-- A numeral behind its sign. -/
def unsignedNumeral (negative : Bool) (c : Cursor) : Except Failure (Numeral × Cursor) :=
  match c.peek? with
  | none => c.fail (.endOf .value)
  | some b =>
    if ¬ Decimal.isDigit b then c.next.fail .invalidNumber
    else if b = 48 then
      if isDigitAt c.next then c.next.failNext .invalidNumber
      else afterDigits negative true 0 0 c.next
    else
      let digits := leadingDigits c
      let (n, left) := appendDigits digits 0
      afterDigits negative left.isEmpty n left.length (c.skip digits.length)

/-- The numeral whose sign or first digit is next. -/
def numeral (c : Cursor) : Except Failure (Numeral × Cursor) :=
  if c.peek? = some 0x2D then unsignedNumeral true c.next else unsignedNumeral false c

end Rendezvous.Json
