import Rendezvous.Time.Strict

/-!
# The relaxed reader of instants

Numbers may be shorter than in the strict form, years longer when they have a sign, and white
space may stand before each number, each `-` and `:`, before the offset and at the end.
-/

namespace Rendezvous.Stamp

/-- A number after optional white space, within bounds. -/
def bounded (most low high : Nat) (bytes : List UInt8) : Except Flaw (Nat × List UInt8) := do
  let (n, rest) ← number most (skipBlank bytes)
  if n < low ∨ high < n then throw .outOfRange
  return (n, rest)

/-- A byte after optional white space. -/
def looseLiteral (expected : UInt8) (bytes : List UInt8) : Except Flaw (List UInt8) :=
  literal expected (skipBlank bytes)

/-- A year: a sign and any number of digits, or up to four digits. -/
def year (bytes : List UInt8) : Except Flaw (Int × List UInt8) := do
  let bytes := skipBlank bytes
  match bytes with
  | 0x2D :: rest =>
    let (n, rest) ← number rest.length rest
    if 2147483648 < n then throw .outOfRange
    return (-(n : Int), rest)
  | 0x2B :: rest =>
    let (n, rest) ← number rest.length rest
    if 2147483647 < n then throw .outOfRange
    return (n, rest)
  | _ =>
    let (n, rest) ← number 4 bytes
    return (n, rest)

/-- Colons and white space, as many as there are. -/
def skipColons (bytes : List UInt8) : List UInt8 :=
  match _h : Utf8.next? bytes with
  | some (c, rest) => if c = ':' || isBlank c then skipColons rest else bytes
  | none => bytes
termination_by bytes.length
decreasing_by exact Utf8.length_of_next? ‹_›

def isUtc : List UInt8 → Bool
  | u :: t :: c :: _ =>
    (u == 0x55 || u == 0x75) && (t == 0x54 || t == 0x74) && (c == 0x43 || c == 0x63)
  | _ => false

/-- `UTC` in any case, or an offset with anything blank between its halves. -/
def looseOffset (bytes : List UInt8) : Except Flaw (Int × List UInt8) :=
  if isUtc bytes then .ok (0, bytes.drop 3) else offset (fun rest => .ok (skipColons rest)) bytes

/-- Reads the instant that is the whole of the bytes. -/
def relaxedBytes (bytes : List UInt8) : Except Flaw Instant := do
  let (year, rest) ← year bytes
  let rest ← looseLiteral 0x2D rest
  let (month, rest) ← bounded 2 1 12 rest
  let rest ← looseLiteral 0x2D rest
  let (day, rest) ← bounded 2 1 31 rest
  let rest ← dateEnd rest
  let (hour, rest) ← bounded 2 0 23 rest
  let rest ← looseLiteral 0x3A rest
  let (minute, rest) ← bounded 2 0 59 rest
  let rest ← looseLiteral 0x3A rest
  let (second, rest) ← bounded 2 0 60 rest
  let (nanos, rest) ← optionalFraction rest
  let (seconds, rest) ← looseOffset (skipBlank rest)
  if ¬ (skipBlank rest).isEmpty then throw .trailing
  let fields : Fields := ⟨⟨year, month, day⟩, hour, minute, second, nanos⟩
  if ¬ fields.Exist ∨ year < -262143 ∨ 262142 < year then throw .outOfRange
  if seconds ≤ -86400 ∨ 86400 ≤ seconds then throw .outOfRange
  match fields.instant? seconds with
  | some t => return t
  | none => throw .impossible

def relaxed (text : String) : Except Flaw Instant := relaxedBytes (Utf8.encode text)

end Rendezvous.Stamp
