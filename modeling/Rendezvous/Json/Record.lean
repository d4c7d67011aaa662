import Rendezvous.Host.Basic
import Rendezvous.Json.Reader
import Rendezvous.Time.Relaxed

/-!
# Reading records

A record is an object with known fields, or an array of their values in order. Unknown fields are
passed over. A `Shape` says how each field is read into a draft and how a draft is completed.
-/

namespace Rendezvous.Json

/-! ## Values of one type -/

/-- The failure for a value of another type than expected; the value itself must be well formed. -/
def mismatch {α : Type} (expected : String) (c : Cursor) : Except Failure α :=
  match c.peek? with
  | none => c.failNext (.endOf .value)
  | some b =>
    if b = 0x5B then c.fail (.wrongType .sequence expected)
    else if b = 0x7B then c.fail (.wrongType .map expected)
    else if b = 0x22 then do
      let (s, c) ← text c.next
      c.fail (.wrongType (.string s) expected)
    else if b = 0x2D || Decimal.isDigit b then do
      let (n, c) ← numeral c
      c.fail (.wrongType n.found expected)
    else match word? c with
      | some (found, read) => do (← read).fail (.wrongType found expected)
      | none => c.failNext .expectedValue

/-- A string; `expected` says what a value of another type is not. -/
def stringAs (expected : String) (c : Cursor) : Except Failure (String × Cursor) :=
  let c := c.skipSpace
  if c.peek? = some 0x22 then text c.next else mismatch expected c

def readString : Cursor → Except Failure (String × Cursor) := stringAs "a string"

/-- A whole number below 65536. -/
def readPort (c : Cursor) : Except Failure (Port × Cursor) :=
  let c := c.skipSpace
  if c.peek? = some 0x2D ∨ isDigitAt c then do
    let (n, c) ← numeral c
    match n with
    | .int n =>
      match Port.ofInt? n with
      | some port => .ok (port, c)
      | none => c.fail (.wrongValue (.int n) "u16")
    | .real x => c.fail (.wrongType (.real x) "u16")
  else mismatch "u16" c

def readInstant (c : Cursor) : Except Failure (Instant × Cursor) := do
  let (s, c) ← stringAs "an RFC 3339 formatted date and time string" c
  match Stamp.relaxed s with
  | .ok t => .ok (t, c)
  | .error flaw => c.fail (.badInstant flaw)

def readOptional {α : Type} (read : Cursor → Except Failure (α × Cursor)) (c : Cursor) :
    Except Failure (Option α × Cursor) := do
  let c := c.skipSpace
  if c.peek? = some 0x6E then
    return (none, ← ident c.next [0x75, 0x6C, 0x6C])
  let (v, c) ← read c
  return (some v, c)

/-! ## Records -/

/-- A field of a record with drafts of type `δ`. -/
structure Slot (δ : Type) where
  name : String
  /-- The draft has the field already. -/
  present : δ → Bool
  read : δ → Cursor → Except Failure (δ × Cursor)

/-- The slot of a field that `get` finds in a draft and `set` puts there. -/
def Slot.of {δ α : Type} (name : String) (read : Cursor → Except Failure (α × Cursor))
    (get : δ → Option α) (set : δ → α → δ) : Slot δ where
  name
  present d := (get d).isSome
  read d c := do
    let (v, c) ← read c
    return (set d v, c)

/-- A record type: its name in messages, its fields in order, the empty draft and its completion. -/
structure Shape (δ α : Type) where
  name : String
  slots : List (Slot δ)
  start : δ
  complete : δ → Except Cause α

variable {δ α : Type}

/-- A failure without a place of its own is noticed behind the closing bracket, if that is next. -/
def failClosed (close : UInt8) (c : Cursor) (cause : Cause) : Except Failure α :=
  let c := c.skipSpace
  if c.peek? = some close then c.next.fail cause else c.fail cause

/-- The fields of an object up to its closing brace. The budget is at least as long as what is
left. -/
def Shape.fields (s : Shape δ α) : (budget : List UInt8) → (first : Bool) → δ → Cursor →
    Except Failure (α × Cursor)
  | [], _, _, c => c.failNext (.endOf .object)
  | _ :: budget, first, draft, c =>
    match nextKey first c with
    | .error f => .error f
    | .ok (none, c) =>
      match s.complete draft with
      | .ok v => .ok (v, c.next)
      | .error cause => failClosed 0x7D c cause
    | .ok (some key, c) =>
      match s.slots.find? (·.name == key) with
      | none =>
        match colon c with
        | .error f => .error f
        | .ok c =>
          match within (.field key) (skipValue c) with
          | .error f => .error f
          | .ok c => Shape.fields s budget false draft c
      | some slot =>
        if slot.present draft then failClosed 0x7D c (.duplicateField key)
        else
          match colon c with
          | .error f => .error f
          | .ok c =>
            match within (.field key) (slot.read draft c) with
            | .error f => .error f
            | .ok (draft, c) => Shape.fields s budget false draft c

/-- The closing bracket of a record written as an array. -/
def closeBracket (c : Cursor) : Except Failure Cursor :=
  let c := c.skipSpace
  match c.peek? with
  | none => c.failNext (.endOf .array)
  | some b =>
    if b = 0x5D then .ok c.next
    else if b = 0x2C then
      let c := c.next.skipSpace
      if c.peek? = some 0x5D then c.failNext .trailingComma else c.failNext .trailingCharacters
    else c.failNext .trailingCharacters

/-- The values of the fields in order, up to the closing bracket. -/
def Shape.places (s : Shape δ α) : List (Slot δ) → (place : Nat) → δ → Cursor →
    Except Failure (α × Cursor)
  | [], _, draft, c =>
    match s.complete draft with
    | .ok v => do return (v, ← closeBracket c)
    | .error cause => failClosed 0x5D c cause
  | slot :: rest, place, draft, c =>
    match nextItem (place == 0) c with
    | .error f => .error f
    | .ok (false, c) => failClosed 0x5D c (.wrongLength place s.name s.slots.length)
    | .ok (true, c) =>
      match within (.index place) (slot.read draft c) with
      | .error f => .error f
      | .ok (draft, c) => Shape.places s rest (place + 1) draft c

def Shape.read (s : Shape δ α) (c : Cursor) : Except Failure (α × Cursor) :=
  let c := c.skipSpace
  if c.peek? = some 0x7B then s.fields c.rest true s.start c.next
  else if c.peek? = some 0x5B then s.places s.slots 0 s.start c.next
  else mismatch s.name c

def Shape.parseBytes (s : Shape δ α) (bytes : List UInt8) : Except Failure α := do
  let (v, c) ← s.read { rest := bytes }
  finish c
  return v

def Shape.parseFirst (s : Shape δ α) (bytes : List UInt8) : Except Failure α := do
  let (v, _) ← s.read { rest := bytes }
  return v

def require {α : Type} (name : String) : Option α → Except Cause α
  | some v => .ok v
  | none => .error (.missingField name)

end Rendezvous.Json
