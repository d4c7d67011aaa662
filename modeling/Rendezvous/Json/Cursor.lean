import Rendezvous.Json.Failure

/-!
# Places in a text

A `Cursor` is what is left of a text with the line and column reached. Lines count from 1 and
columns count the bytes taken on the line. A reader returns a value and the place behind it. A
failure is noticed either behind what was taken (`Cursor.fail`) or on the next byte
(`Cursor.failNext`).
-/

namespace Rendezvous.Json

structure Cursor where
  rest : List UInt8
  line : Nat := 1
  column : Nat := 0
  deriving DecidableEq

namespace Cursor

def peek? (c : Cursor) : Option UInt8 := c.rest.head?

def next (c : Cursor) : Cursor :=
  match c.rest with
  | [] => c
  | b :: rest => if b = 10 then ⟨rest, c.line + 1, 0⟩ else ⟨rest, c.line, c.column + 1⟩

def skip (c : Cursor) : Nat → Cursor
  | 0 => c
  | n + 1 => c.next.skip n

def fail {α : Type} (c : Cursor) (cause : Cause) : Except Failure α :=
  .error { cause, line := c.line, column := c.column }

/-- Fails on the next byte, or at the end of the text. -/
def failNext {α : Type} (c : Cursor) (cause : Cause) : Except Failure α := c.next.fail cause

def isSpace (b : UInt8) : Bool := b == 32 || b == 10 || b == 9 || b == 13

/-- Takes white space; `bytes` is what is left. -/
def skipSpaceFrom : (bytes : List UInt8) → (line column : Nat) → Cursor
  | [], line, column => ⟨[], line, column⟩
  | b :: rest, line, column =>
    if b = 10 then skipSpaceFrom rest (line + 1) 0
    else if isSpace b then skipSpaceFrom rest line (column + 1)
    else ⟨b :: rest, line, column⟩

def skipSpace (c : Cursor) : Cursor := skipSpaceFrom c.rest c.line c.column

end Cursor

/-- A failure inside a part of a document is a failure at the path of that part. -/
def within {α : Type} (segment : Segment) : Except Failure α → Except Failure α
  | .error f => .error { f with path := segment :: f.path }
  | .ok a => .ok a

end Rendezvous.Json
