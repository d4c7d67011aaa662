import Rendezvous.Number.Layout
import Rendezvous.Host.Basic
import Rendezvous.Json.Numeral
import Rendezvous.Store.Fault

/-!
# Cells

What a database holds in one place of a table. A text column turns numbers into text; a column of
whole numbers turns texts and reals into whole numbers where nothing is lost.
-/

namespace Rendezvous

inductive Cell
  | null
  | integer (value : Int)
  | real (value : Double)
  | text (value : String)
  deriving DecidableEq, Repr

namespace Cell

def kind : Cell → CellKind
  | .null => .null
  | .integer _ => .integer
  | .real _ => .real
  | .text _ => .text

/-- The cell as a text column keeps it. -/
def inTextColumn : Cell → Cell
  | .integer n => .text (Decimal.integer n)
  | .real x => .text (Layout.stored.write (x.significant 15))
  | cell => cell

/-- A whole number that a signed 64-bit column holds. -/
def isStorable (n : Int) : Bool := -9223372036854775808 ≤ n && n ≤ 9223372036854775807

/-- A real as a column of whole numbers keeps it: as a whole number if it is one, the least one of
64 bits apart. -/
def ofReal (x : Double) : Cell :=
  match x.toInt? with
  | some n => if isStorable n ∧ n ≠ -9223372036854775808 then .integer n else .real x
  | none => .real x

def isSpace (c : Char) : Bool := c == ' ' || (9 ≤ c.toNat && c.toNat ≤ 13)

/-- A number as it is written: its sign, whole digits, fraction and exponent. -/
structure Figures where
  negative : Bool
  whole : List Char
  fraction : Option (List Char)
  power : Option Int

namespace Figures

def sign : List Char → Bool × List Char
  | '-' :: rest => (true, rest)
  | '+' :: rest => (false, rest)
  | unsigned => (false, unsigned)

def power? : List Char → Option Int
  | e :: rest => do
    let (minus, digits) := sign rest
    if (e = 'e' ∨ e = 'E') ∧ ¬ digits.isEmpty ∧ digits.all Char.isDigit then
      let n : Int := (Nat.ofDigitChars 10 digits 0 : Nat)
      return if minus then -n else n
    else none
  | [] => none

/-- The figures of a text that is a number, with white space around. -/
def ofText? (text : List Char) : Option Figures := do
  let (negative, text) := sign ((text.dropWhile isSpace).reverse.dropWhile isSpace).reverse
  let whole := text.takeWhile Char.isDigit
  let (fraction, text) := match text.dropWhile Char.isDigit with
    | '.' :: rest => (some (rest.takeWhile Char.isDigit), rest.dropWhile Char.isDigit)
    | rest => (none, rest)
  if whole.isEmpty && (fraction.getD []).isEmpty then none
  else if text.isEmpty then return ⟨negative, whole, fraction, none⟩
  else return ⟨negative, whole, fraction, some (← power? text)⟩

/-- The digits without their point, as a number. -/
def digits (f : Figures) : Nat :=
  Decimal.value ((f.whole ++ f.fraction.getD []).map fun c => UInt8.ofNat c.toNat)

/-- The number, if it is written without a point and an exponent. -/
def integer? (f : Figures) : Option Int :=
  if f.fraction.isNone && f.power.isNone then
    some (if f.negative then -(f.digits : Int) else f.digits)
  else none

/-- The nearest real; the largest one for a number that lies past it. -/
def real (f : Figures) : Double :=
  let e := f.power.getD 0 - (f.fraction.getD []).length
  (Json.realOf f.negative f.digits (if e < -400 then -400 else if 400 < e then 400 else e)).getD
    ⟨f.negative, Nat.pow 2 53 - 1, 971⟩

end Figures

/-- A text as a column of whole numbers keeps it. -/
def ofText (text : String) : Cell :=
  match Figures.ofText? text.toList with
  | none => .text text
  | some f =>
    match f.integer? with
    | some n => if isStorable n then .integer n else ofReal f.real
    | none => ofReal f.real

def inIntegerColumn : Cell → Cell
  | .text s => ofText s
  | .real x => ofReal x
  | cell => cell

/-- Nothing sorts first, then numbers, then texts by their bytes. -/
def le : Cell → Cell → Bool
  | .null, _ => true
  | _, .null => false
  | .text a, .text b => decide (a ≤ b)
  | .text _, _ => false
  | _, .text _ => true
  | .integer a, .integer b => decide (a ≤ b)
  | _, _ => true

def asText (column : Column) : Cell → Except RowFault String
  | .text s => .ok s
  | cell => .error (.wrongKind cell.kind column)

def asPort (column : Column) : Cell → Except RowFault Port
  | .integer n =>
    match Port.ofInt? n with
    | some port => .ok port
    | none => .error (.outOfRange n column)
  | cell => .error (.wrongKind cell.kind column)

end Cell
end Rendezvous
