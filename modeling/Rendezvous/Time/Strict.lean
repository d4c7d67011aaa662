import Rendezvous.Time.Field

/-!
# The strict reader of instants

`YYYY-MM-DD`, one of `T`, `t` and a space, `HH:MM:SS`, an optional fraction, and `Z`, `z` or an
offset `±HH:MM`: nothing more and nothing less.
-/

namespace Rendezvous.Stamp

/-- Digits at the start, exactly `count` of them. -/
def exactDigits (count : Nat) (bytes : List UInt8) : Except Flaw (Nat × List UInt8) :=
  let digits := bytes.take count
  if digits.length = count ∧ digits.all Decimal.isDigit then
    .ok (Decimal.value digits, bytes.drop count)
  else .error .invalid

/-- One of `T`, `t` and a space. -/
def dateEnd : List UInt8 → Except Flaw (List UInt8)
  | 0x54 :: rest | 0x74 :: rest | 0x20 :: rest => .ok rest
  | [] => .error .premature
  | _ => .error .invalid

def optionalFraction : List UInt8 → Except Flaw (Nat × List UInt8)
  | 0x2E :: rest => nanoseconds rest
  | bytes => .ok (0, bytes)

/-- Reads the instant that is the whole of the bytes. -/
def strictBytes (bytes : List UInt8) : Except Flaw Instant := do
  if bytes.length < 19 then throw .premature
  let (year, rest) ← exactDigits 4 bytes
  let rest ← literal 0x2D rest
  let (month, rest) ← exactDigits 2 rest
  let rest ← literal 0x2D rest
  let (day, rest) ← exactDigits 2 rest
  let date : Date := ⟨year, month, day⟩
  if ¬ date.Valid then throw .outOfRange
  let rest ← dateEnd rest
  let (hour, rest) ← exactDigits 2 rest
  let rest ← literal 0x3A rest
  let (minute, rest) ← exactDigits 2 rest
  let rest ← literal 0x3A rest
  let (second, rest) ← exactDigits 2 rest
  let (nanos, rest) ← optionalFraction rest
  let fields : Fields := ⟨date, hour, minute, second, nanos⟩
  if ¬ fields.Exist then throw .outOfRange
  let (seconds, rest) ← offset (literal 0x3A) rest
  if ¬ rest.isEmpty then throw .trailing
  if seconds ≤ -86400 ∨ 86400 ≤ seconds then throw .outOfRange
  match fields.instant? seconds with
  | some t => return t
  | none => throw .outOfRange

def strict (text : String) : Except Flaw Instant := strictBytes (Utf8.encode text)

end Rendezvous.Stamp
