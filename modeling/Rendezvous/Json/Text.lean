import Rendezvous.Json.Cursor
import Rendezvous.Text.Hex

/-!
# Strings

A string in a JSON text, read behind its opening quote. Escapes and control characters are
checked byte by byte; bytes that are not UTF-8 are reported once the closing quote is found.
-/

namespace Rendezvous.Json

def hexDigit? (b : UInt8) : Option Nat := Hex.value? (Char.ofNat b.toNat)

/-- The number that four hexadecimal digits spell. -/
def hexFour (c : Cursor) : Except Failure (Nat × Cursor) :=
  match c.rest with
  | w :: x :: y :: z :: _ =>
    match hexDigit? w, hexDigit? x, hexDigit? y, hexDigit? z with
    | some w, some x, some y, some z => .ok (((w * 16 + x) * 16 + y) * 16 + z, c.skip 4)
    | _, _, _, _ => (c.skip 4).fail .invalidEscape
  | _ => (c.skip 4).fail (.endOf .string)

/-- One byte of the opening of a second escape. -/
def escapeByte (expected : UInt8) (c : Cursor) : Except Failure Cursor :=
  match c.peek? with
  | none => c.fail (.endOf .string)
  | some b => if b = expected then .ok c.next else c.next.fail .unexpectedEndOfEscape

/-- The character of an escape behind its `u`; a high surrogate takes the low one that follows. -/
def codeEscape (c : Cursor) : Except Failure (Char × Cursor) := do
  let (n, c) ← hexFour c
  if 0xDC00 ≤ n ∧ n ≤ 0xDFFF then c.fail .loneSurrogate
  else if n < 0xD800 ∨ 0xDBFF < n then .ok (Char.ofNat n, c)
  else
    let c ← escapeByte 0x5C c
    let c ← escapeByte 0x75 c
    let (m, c) ← hexFour c
    if m < 0xDC00 ∨ 0xDFFF < m then c.fail .loneSurrogate
    else .ok (Char.ofNat (0x10000 + (n - 0xD800) * 0x400 + (m - 0xDC00)), c)

/-- The character that a letter stands for behind a backslash. -/
def plainEscape? (b : UInt8) : Option Char :=
  match b with
  | 0x22 => some '"'
  | 0x5C => some '\\'
  | 0x2F => some '/'
  | 0x62 => some (Char.ofNat 8)
  | 0x66 => some (Char.ofNat 12)
  | 0x6E => some '\n'
  | 0x72 => some '\r'
  | 0x74 => some '\t'
  | _ => none

/-- The character of an escape behind its backslash. -/
def escaped (c : Cursor) : Except Failure (Char × Cursor) :=
  match c.peek? with
  | none => c.fail (.endOf .string)
  | some b =>
    if b = 0x75 then codeEscape c.next
    else match plainEscape? b with
      | some x => .ok (x, c.next)
      | none => c.next.fail .invalidEscape

/-- The rest of a string; `seen` are its characters so far, last first, `flaw` its first bad byte.
The budget is at least as long as what is left. -/
def textFrom : (budget : List UInt8) → (seen : List Char) → (flaw : Option Failure) → Cursor →
    Except Failure (String × Cursor)
  | [], _, _, c => c.fail (.endOf .string)
  | _ :: budget, seen, flaw, c =>
    match c.rest with
    | [] => c.fail (.endOf .string)
    | b :: rest =>
      if b = 0x22 then
        match flaw with
        | none => .ok (String.ofList seen.reverse, c.next)
        | some f => .error f
      else if b = 0x5C then
        match escaped c.next with
        | .ok (x, c) => textFrom budget (x :: seen) flaw c
        | .error f => .error f
      else if b.toNat < 32 then c.next.fail .controlCharacter
      else match Utf8.next? (b :: rest) with
        | some (x, rest) =>
          textFrom budget (x :: seen) flaw ⟨rest, c.line, c.column + x.utf8Size⟩
        | none =>
          let bad : Failure := ⟨.invalidCodePoint, c.line, c.column + 1, []⟩
          textFrom budget seen (some (flaw.getD bad)) c.next

/-- The string whose opening quote has been taken. -/
def text (c : Cursor) : Except Failure (String × Cursor) := textFrom c.rest [] none c

/-- Passes over the rest of a string without taking in its characters. -/
def skipTextFrom : (budget : List UInt8) → Cursor → Except Failure Cursor
  | [], c => c.fail (.endOf .string)
  | _ :: budget, c =>
    match c.peek? with
    | none => c.fail (.endOf .string)
    | some b =>
      if b = 0x22 then .ok c.next
      else if b = 0x5C then
        match c.next.peek? with
        | none => c.next.fail (.endOf .string)
        | some e =>
          if e = 0x75 then
            match hexFour c.next.next with
            | .ok (_, c) => skipTextFrom budget c
            | .error f => .error f
          else if (plainEscape? e).isSome then skipTextFrom budget c.next.next
          else c.next.next.fail .invalidEscape
      else if b.toNat < 32 then c.fail .controlCharacter
      else skipTextFrom budget c.next

def skipText (c : Cursor) : Except Failure Cursor := skipTextFrom c.rest c

end Rendezvous.Json
