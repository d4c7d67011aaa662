import Rendezvous.Json.Basic
import Rendezvous.Json.Numeral
import Rendezvous.Json.Text

/-!
# Reading documents

`value` reads a document of at most a given depth. `nextItem` and `nextKey` move through arrays
and objects and are shared with the readers of records. `skipValue` passes over a value of any
depth, and checks no more than that brackets, commas, strings and numerals are well formed.
-/

namespace Rendezvous.Json

/-- The rest of a word of which the first letter is next. -/
def ident (c : Cursor) : List UInt8 → Except Failure Cursor
  | [] => .ok c
  | expected :: rest =>
    match c.peek? with
    | none => c.fail (.endOf .value)
    | some b => if b = expected then ident c.next rest else c.next.fail .expectedIdent

/-- `null`, `true` or `false`, whichever has its first letter next. -/
def word? (c : Cursor) : Option (Found × Except Failure Cursor) :=
  match c.peek? with
  | some 0x6E => some (.null, ident c.next [0x75, 0x6C, 0x6C])
  | some 0x74 => some (.bool true, ident c.next [0x72, 0x75, 0x65])
  | some 0x66 => some (.bool false, ident c.next [0x61, 0x6C, 0x73, 0x65])
  | _ => none

/-- Moves to the next item of an array: whether there is one, and the place of it or of `]`. -/
def nextItem (first : Bool) (c : Cursor) : Except Failure (Bool × Cursor) :=
  let c := c.skipSpace
  match c.peek? with
  | none => c.failNext (.endOf .array)
  | some b =>
    if b = 0x5D then .ok (false, c)
    else if first then .ok (true, c)
    else if b = 0x2C then
      let c := c.next.skipSpace
      match c.peek? with
      | none => c.failNext (.endOf .value)
      | some b => if b = 0x5D then c.failNext .trailingComma else .ok (true, c)
    else c.failNext .expectedCommaOrBracket

def keyQuote (c : Cursor) : Except Failure (Option String × Cursor) := do
  let (key, c) ← text c.next
  return (some key, c)

/-- Moves to the next field of an object and takes its key, or to `\x7d`, which is left. -/
def nextKey (first : Bool) (c : Cursor) : Except Failure (Option String × Cursor) :=
  within .unnamed <|
    let c := c.skipSpace
    match c.peek? with
    | none => c.failNext (.endOf .object)
    | some b =>
      if b = 0x7D then .ok (none, c)
      else if first then
        if b = 0x22 then keyQuote c else c.failNext .keyNotString
      else if b = 0x2C then
        let c := c.next.skipSpace
        match c.peek? with
        | none => c.failNext (.endOf .value)
        | some b =>
          if b = 0x22 then keyQuote c
          else if b = 0x7D then c.failNext .trailingComma
          else c.failNext .keyNotString
      else c.failNext .expectedCommaOrBrace

def colon (c : Cursor) : Except Failure Cursor :=
  let c := c.skipSpace
  match c.peek? with
  | none => c.failNext (.endOf .object)
  | some b => if b = 0x3A then .ok c.next else c.failNext .expectedColon

/-- The items of an array up to its closing bracket; `seen` are those before, last first. The budget
is at least as long as what is left. -/
def items (item : Cursor → Except Failure (Json × Cursor)) : (budget : List UInt8) →
    (place : Nat) → (seen : List Json) → Cursor → Except Failure (List Json × Cursor)
  | [], _, _, c => c.failNext (.endOf .array)
  | _ :: budget, place, seen, c =>
    match nextItem (place == 0) c with
    | .error f => .error f
    | .ok (false, c) => .ok (seen.reverse, c.next)
    | .ok (true, c) =>
      match within (.index place) (item c) with
      | .error f => .error f
      | .ok (v, c) => items item budget (place + 1) (v :: seen) c

/-- The fields of an object up to its closing brace, laid over those before. -/
def members (item : Cursor → Except Failure (Json × Cursor)) : (budget : List UInt8) →
    (first : Bool) → Fields → Cursor → Except Failure (Fields × Cursor)
  | [], _, _, c => c.failNext (.endOf .object)
  | _ :: budget, first, seen, c =>
    match nextKey first c with
    | .error f => .error f
    | .ok (none, c) => .ok (seen, c.next)
    | .ok (some key, c) =>
      match colon c with
      | .error f => .error f
      | .ok c =>
        match within (.field key) (item c) with
        | .error f => .error f
        | .ok (v, c) => members item budget false (seen.insert key v) c

/-- A value without brackets, the first byte of which is next. -/
def scalar (c : Cursor) : Except Failure (Json × Cursor) :=
  match c.peek? with
  | none => c.failNext (.endOf .value)
  | some b =>
    if b = 0x22 then do
      let (s, c) ← text c.next
      return (.string s, c)
    else if b = 0x2D || Decimal.isDigit b then do
      let (n, c) ← numeral c
      return (n.json, c)
    else match word? c with
      | some (.bool value, read) => do return (.bool value, ← read)
      | some (_, read) => do return (.null, ← read)
      | none => c.failNext .expectedValue

/-- The document that is next, with at most `depth` brackets open at once. -/
def value : (depth : Nat) → Cursor → Except Failure (Json × Cursor)
  | 0, c =>
    let c := c.skipSpace
    if c.peek? = some 0x5B ∨ c.peek? = some 0x7B then c.failNext .depthExceeded else scalar c
  | depth + 1, c =>
    let c := c.skipSpace
    if c.peek? = some 0x5B then do
      let (vs, c) ← items (value depth) c.rest 0 [] c.next
      return (.array vs, c)
    else if c.peek? = some 0x7B then do
      let (fields, c) ← members (value depth) c.rest true [] c.next
      return (.object fields, c)
    else scalar c

/-- The number of brackets that may be open at once. -/
def depthLimit : Nat := 127

def parseFirst (bytes : List UInt8) : Except Failure Json := do
  let (v, _) ← value depthLimit { rest := bytes }
  return v

/-- Nothing but white space is left. -/
def finish (c : Cursor) : Except Failure Unit :=
  let c := c.skipSpace
  if c.rest.isEmpty then .ok () else c.failNext .trailingCharacters

/-- The document that is the whole of the bytes. -/
def parseBytes (bytes : List UInt8) : Except Failure Json := do
  let (v, c) ← value depthLimit { rest := bytes }
  finish c
  return v

def parse (text : String) : Except Failure Json := parseBytes (Utf8.encode text)

/-! ## Values that are passed over -/

def skipDigits (c : Cursor) : Cursor := c.skip (leadingDigits c).length

def skipExponent (c : Cursor) : Except Failure Cursor :=
  let c := c.next
  let c := if c.peek? = some 0x2B ∨ c.peek? = some 0x2D then c.next else c
  if isDigitAt c then .ok (skipDigits c) else c.next.fail .invalidNumber

def skipFraction (c : Cursor) : Except Failure Cursor :=
  let c := c.next
  if isDigitAt c then
    let c := skipDigits c
    if isExponentLetter c.peek? then skipExponent c else .ok c
  else c.failNext .invalidNumber

def skipNumeral (c : Cursor) : Except Failure Cursor :=
  if ¬ isDigitAt c then c.next.fail .invalidNumber
  else if c.peek? = some 0x30 ∧ isDigitAt c.next then c.next.failNext .invalidNumber
  else
    let c := if c.peek? = some 0x30 then c.next else skipDigits c
    if c.peek? = some 0x2E then skipFraction c
    else if isExponentLetter c.peek? then skipExponent c
    else .ok c

def skipScalar (c : Cursor) : Except Failure Cursor :=
  match c.peek? with
  | none => c.failNext (.endOf .value)
  | some b =>
    if b = 0x22 then skipText c.next
    else if b = 0x2D then skipNumeral c.next
    else if Decimal.isDigit b then skipNumeral c
    else match word? c with
      | some (_, read) => read
      | none => c.failNext .expectedValue

/-- A bracket that is open. -/
inductive Frame
  | array
  | object
  deriving DecidableEq, Repr

def Frame.close : Frame → UInt8
  | .array => 0x5D
  | .object => 0x7D

/-- What is missing when the text ends inside the bracket. -/
def Frame.unfinished : Frame → Unfinished
  | .array => .array
  | .object => .object

/-- The key of the next field with its colon, or nothing inside an array. -/
def skipKey (frame : Frame) (c : Cursor) : Except Failure Cursor :=
  match frame with
  | .array => .ok c
  | .object =>
    let c := c.skipSpace
    match c.peek? with
    | none => c.failNext (.endOf .object)
    | some b => if b = 0x22 then skipText c.next >>= colon else c.failNext .keyNotString

/-- What a pass over a value comes to next. -/
inductive Standing
  /-- A value is next. -/
  | before
  /-- A value has been passed. -/
  | behind
  deriving DecidableEq, Repr

/-- Enters a bracket that was taken: up to its first value, or past its end when it is empty. -/
def skipOpening (frame : Frame) (c : Cursor) : Except Failure (Standing × Cursor) :=
  let c := c.skipSpace
  match c.peek? with
  | none => c.failNext (.endOf frame.unfinished)
  | some b =>
    if b = frame.close then .ok (.behind, c.next)
    else do return (.before, ← skipKey frame c)

/-- Goes on behind a value: up to the next one, or past the end of the bracket. -/
def skipOn (frame : Frame) (c : Cursor) : Except Failure (Standing × Cursor) :=
  let c := c.skipSpace
  match c.peek? with
  | none => c.failNext (.endOf frame.unfinished)
  | some b =>
    if b = frame.close then .ok (.behind, c.next)
    else if b = 0x2C then do return (.before, ← skipKey frame c.next)
    else c.failNext (match frame with
      | .array => .expectedCommaOrBracket
      | .object => .expectedCommaOrBrace)

/-- The frames that are open after a step inside the first of them. -/
def framesAfter (frame : Frame) (frames : List Frame) : Standing → List Frame
  | .before => frame :: frames
  | .behind => frames

/-- Passes over what is left of a value while the brackets of `frames` are open. The budget is at
least as long as what is left. -/
def skipFrom : (budget : List UInt8) → Standing → (frames : List Frame) → Cursor →
    Except Failure Cursor
  | _, .behind, [], c => .ok c
  | [], .before, _, c => c.failNext (.endOf .value)
  | [], .behind, frame :: _, c => c.failNext (.endOf frame.unfinished)
  | _ :: budget, .before, frames, c =>
    let c := c.skipSpace
    let opened? : Option Frame :=
      if c.peek? = some 0x5B then some .array
      else if c.peek? = some 0x7B then some .object
      else none
    match opened? with
    | some frame =>
      match skipOpening frame c.next with
      | .ok (standing, c) => skipFrom budget standing (framesAfter frame frames standing) c
      | .error f => .error f
    | none =>
      match skipScalar c with
      | .ok c => skipFrom budget .behind frames c
      | .error f => .error f
  | _ :: budget, .behind, frame :: frames, c =>
    match skipOn frame c with
    | .ok (standing, c) => skipFrom budget standing (framesAfter frame frames standing) c
    | .error f => .error f

/-- Passes over the value that is next. -/
def skipValue (c : Cursor) : Except Failure Cursor := skipFrom c.rest .before [] c

end Rendezvous.Json
