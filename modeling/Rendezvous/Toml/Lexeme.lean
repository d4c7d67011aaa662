import Rendezvous.Time.Calendar
import Rendezvous.Text.Hex
import Rendezvous.Text.Utf8
import Rendezvous.Toml.Value

/-!
# TOML lexemes

Readers of the parts that TOML values are written with: white space and comments, keys, strings,
numbers, dates and times. Each takes what is left of the text and returns what it read with the
rest, or nothing when the text is not of its form. TOML itself sets no bound to how deep things lie
in each other or how large numbers are; a reader does, and `Limits` says which.
-/

namespace Rendezvous.Toml

/-! ## White space -/

def isSpace (c : Char) : Bool := c == ' ' || c == '\t'

def skipSpace (s : List Char) : List Char := s.dropWhile isSpace

/-- A character that a comment or a string may hold: no control character but the tab. -/
def isPlain (c : Char) : Bool := c == '\t' || (32 ≤ c.toNat && c.toNat != 127)

def newline? : List Char → Option (List Char)
  | '\n' :: rest => some rest
  | '\r' :: '\n' :: rest => some rest
  | _ => none

/-- Without the comment that is next, if one is. -/
def skipComment : List Char → List Char
  | '#' :: rest => rest.dropWhile isPlain
  | s => s

/-- White space and a comment up to the end of the line. -/
def lineEnd? (s : List Char) : Option (List Char) :=
  match skipComment (skipSpace s) with
  | [] => some []
  | rest => newline? rest

/-- White space, comments and line breaks; a comment ends with its line. Here and below, a budget is
at least as long as what is left of the text. -/
def skipTrivia : (budget : List Char) → List Char → List Char
  | [], s => s
  | _ :: budget, s =>
    let s := skipSpace s
    match s with
    | '#' :: _ =>
      match newline? (skipComment s) with
      | some rest => skipTrivia budget rest
      | none => s
    | _ =>
      match newline? s with
      | some rest => skipTrivia budget rest
      | none => s

def trivia (s : List Char) : List Char := skipTrivia s s

/-! ## Strings -/

def hexValue? (digits : List Char) : Option Nat :=
  digits.foldl (fun n c => do return (← n) * 16 + (← Hex.value? c)) (some 0)

/-- The character of an escape behind its backslash. -/
def escape? : List Char → Option (Char × List Char)
  | 'b' :: rest => some (Char.ofNat 8, rest)
  | 't' :: rest => some ('\t', rest)
  | 'n' :: rest => some ('\n', rest)
  | 'f' :: rest => some (Char.ofNat 12, rest)
  | 'r' :: rest => some ('\r', rest)
  | '"' :: rest => some ('"', rest)
  | '\\' :: rest => some ('\\', rest)
  | 'u' :: rest => codePoint 4 rest
  | 'U' :: rest => codePoint 8 rest
  | _ => none
where
  codePoint (width : Nat) (s : List Char) : Option (Char × List Char) := do
    if (s.take width).length < width then failure
    let n ← hexValue? (s.take width)
    let c ← Utf8.scalar? n
    return (c, s.drop width)

/-- The rest of a basic string behind its quote; `seen` comes before, last character first. -/
def basicFrom : (budget : List Char) → (seen : List Char) → List Char →
    Option (String × List Char)
  | [], _, _ => none
  | _ :: budget, seen, s =>
    match s with
    | '"' :: rest => some (String.ofList seen.reverse, rest)
    | '\\' :: rest => do
      let (c, rest) ← escape? rest
      basicFrom budget (c :: seen) rest
    | c :: rest => if isPlain c then basicFrom budget (c :: seen) rest else none
    | [] => none

def basic? (s : List Char) : Option (String × List Char) := basicFrom s [] s

/-- The rest of a literal string behind its quote. -/
def literal? (s : List Char) : Option (String × List Char) :=
  let body := s.takeWhile fun c => isPlain c && c != '\''
  match s.drop body.length with
  | '\'' :: rest => some (String.ofList body, rest)
  | _ => none

/-- Without the line break that may follow an opening triple quote. -/
def skipFirstBreak (s : List Char) : List Char := (newline? s).getD s

/-- Blanks and line breaks behind a backslash at the end of a line. -/
def lineJoin? (s : List Char) : Option (List Char) := do
  let rest ← newline? (skipSpace s)
  return joined rest rest
where
  joined : (budget : List Char) → List Char → List Char
    | [], s => s
    | _ :: budget, s => match newline? (skipSpace s) with
      | some rest => joined budget rest
      | none => skipSpace s

/-- The rest of a string between triple quotes `q`; up to two quotes may come before the last
three. -/
def longFrom (q : Char) (escapes : Bool) : (budget : List Char) → (seen : List Char) → List Char →
    Option (String × List Char)
  | [], _, _ => none
  | _ :: budget, seen, s =>
    let quotes := (s.takeWhile (· == q)).length
    if 3 ≤ quotes then
      let extra := if 5 ≤ quotes then 2 else quotes - 3
      some (String.ofList (List.replicate extra q ++ seen).reverse, s.drop (extra + 3))
    else if 0 < quotes then
      longFrom q escapes budget (List.replicate quotes q ++ seen) (s.drop quotes)
    else
      match newline? s with
      | some rest => longFrom q escapes budget ('\n' :: seen) rest
      | none =>
        match s with
        | [] => none
        | c :: rest =>
          if c == '\\' && escapes then
            match lineJoin? rest with
            | some rest => longFrom q escapes budget seen rest
            | none => do
              let (c, rest) ← escape? rest
              longFrom q escapes budget (c :: seen) rest
          else if isPlain c then longFrom q escapes budget (c :: seen) rest
          else none

def string? : List Char → Option (String × List Char)
  | '"' :: '"' :: '"' :: rest => longFrom '"' true rest [] (skipFirstBreak rest)
  | '\'' :: '\'' :: '\'' :: rest => longFrom '\'' false rest [] (skipFirstBreak rest)
  | '"' :: rest => basic? rest
  | '\'' :: rest => literal? rest
  | _ => none

/-! ## Keys -/

def isKeyChar (c : Char) : Bool := c.isAlphanum || c == '_' || c == '-'

def keyPart? (s : List Char) : Option (String × List Char) :=
  match s with
  | '"' :: rest => basic? rest
  | '\'' :: rest => literal? rest
  | _ =>
    let name := s.takeWhile isKeyChar
    if name.isEmpty then none else some (String.ofList name, s.drop name.length)

/-- The parts of a key, with points between them and white space around. -/
def keyFrom : (depth : Nat) → List Char → Option (List String × List Char)
  | 0, _ => none
  | depth + 1, s => do
    let (part, rest) ← keyPart? (skipSpace s)
    match skipSpace rest with
    | '.' :: rest => do
      let (parts, rest) ← keyFrom depth rest
      return (part :: parts, rest)
    | rest => return ([part], rest)

/-- How far a reader goes. -/
structure Limits where
  /-- The most brackets, and parts of a key, that may lie in each other. -/
  depth : Nat
  /-- Numbers have to be such that 64 bits hold them. -/
  narrow : Bool
  deriving DecidableEq, Repr

/-- The limits of configuration files. -/
def Limits.standard : Limits := ⟨79, true⟩

/-- A key of few enough parts. -/
def key? (limits : Limits) (s : List Char) : Option (List String × List Char) :=
  keyFrom limits.depth s

/-! ## Numbers -/

/-- Digits with single underscores between them; the digits without those. -/
def digits? (isDigit : Char → Bool) (s : List Char) : Option (List Char × List Char) :=
  let run := s.takeWhile fun c => isDigit c || c == '_'
  let rec ok : List Char → Bool
    | [] => false
    | [c] => isDigit c
    | '_' :: _ => false
    | _ :: '_' :: rest => ok rest
    | _ :: rest => ok rest
  if ok run then some (run.filter isDigit, s.drop run.length) else none

def decimalValue (digits : List Char) : Nat := digits.foldl (fun n c => n * 10 + (c.toNat - 48)) 0

def sign : List Char → Bool × List Char
  | '+' :: rest => (false, rest)
  | '-' :: rest => (true, rest)
  | s => (false, s)

/-- Whole decimal digits, which begin with a zero only if they are one. -/
def wholeDigits? (s : List Char) : Option (List Char × List Char) :=
  match s with
  | '0' :: rest => some (['0'], rest)
  | _ => digits? Char.isDigit s

/-- A whole number in base 16, 8 or 2. -/
def radix? (base : Nat) (s : List Char) : Option (Value × List Char) := do
  let isDigit (c : Char) : Bool := (Hex.value? c).any (· < base)
  let (digits, rest) ← digits? isDigit s
  let n : Nat := digits.foldl (fun n c => n * base + (Hex.value? c).getD 0) 0
  return (.integer n, rest)

def integer? (s : List Char) : Option (Value × List Char) :=
  match s with
  | '0' :: 'x' :: rest => radix? 16 rest
  | '0' :: 'o' :: rest => radix? 8 rest
  | '0' :: 'b' :: rest => radix? 2 rest
  | _ => do
    let (negative, rest) := sign s
    let (digits, rest) ← wholeDigits? rest
    let n := decimalValue digits
    return (.integer (if negative then -(n : Int) else n), rest)

def fraction? : List Char → Option (List Char × List Char)
  | '.' :: rest => digits? Char.isDigit rest
  | _ => none

def power? : List Char → Option (Int × List Char)
  | e :: rest =>
    if e == 'e' || e == 'E' then do
      let (negative, rest) := sign rest
      let (digits, rest) ← digits? Char.isDigit rest
      let n := decimalValue digits
      return (if negative then -(n : Int) else n, rest)
    else none
  | [] => none

/-- The number nearest to `n * 10 ^ e`. A power that leaves the range of numbers is cut short. -/
def nearest (negative : Bool) (n : Nat) (digits : Nat) (e : Int) : Real :=
  if n = 0 then .finite (.zero negative)
  else if 400 < e + digits then .infinite negative
  else if e + digits < -400 then .finite (.zero negative)
  else
    let ratio := if 0 ≤ e then (n * Nat.pow 10 e.toNat, 1) else (n, Nat.pow 10 (-e).toNat)
    match Double.ofRatio negative ratio.1 ratio.2 with
    | some x => .finite x
    | none => .infinite negative

/-- A decimal number with a fraction or a power of ten. -/
def decimal? (s : List Char) : Option (Value × List Char) := do
  let (negative, rest) := sign s
  let (whole, rest) ← wholeDigits? rest
  let (part, behindPart) := match fraction? rest with
    | some (part, rest) => (part, rest)
    | none => ([], rest)
  let (power, behind) := match power? behindPart with
    | some (power, rest) => (some power, rest)
    | none => (none, behindPart)
  if part.isEmpty && power.isNone then failure
  let digits := whole ++ part
  let value := nearest negative (decimalValue digits) digits.length (power.getD 0 - part.length)
  return (.real value, behind)

/-- A signed word holds the whole number. Of those with a fraction, only the positive ones must not
be too large. -/
def Value.isNarrow : Value → Bool
  | .integer n => -9223372036854775808 ≤ n && n ≤ 9223372036854775807
  | .real x => x != .infinite false
  | _ => true

def number? (limits : Limits) (s : List Char) : Option (Value × List Char) :=
  (decimal? s <|> integer? s).filter fun p => !limits.narrow || p.1.isNarrow

/-- `inf` and `nan`, with a sign or without. -/
def special? (s : List Char) : Option (Value × List Char) :=
  let (negative, rest) := sign s
  match rest with
  | 'i' :: 'n' :: 'f' :: rest => some (.real (.infinite negative), rest)
  | 'n' :: 'a' :: 'n' :: rest => some (.real .undefined, rest)
  | _ => none

/-! ## Dates and times -/

def count? (width : Nat) (s : List Char) : Option (Nat × List Char) :=
  let digits := s.take width
  if digits.length = width ∧ digits.all Char.isDigit then some (decimalValue digits, s.drop width)
  else none

def char? (expected : Char) : List Char → Option (List Char)
  | c :: rest => if c = expected then some rest else none
  | [] => none

def date? (s : List Char) : Option (List Char) := do
  let (year, rest) ← count? 4 s
  let rest ← char? '-' rest
  let (month, rest) ← count? 2 rest
  let rest ← char? '-' rest
  let (day, rest) ← count? 2 rest
  if (⟨year, month, day⟩ : Date).Valid then return rest else failure

def time? (s : List Char) : Option (List Char) := do
  let (hour, rest) ← count? 2 s
  let rest ← char? ':' rest
  let (minute, rest) ← count? 2 rest
  let rest ← char? ':' rest
  let (second, rest) ← count? 2 rest
  if 23 < hour ∨ 59 < minute ∨ 60 < second then failure
  match rest with
  | '.' :: rest =>
    let part := rest.takeWhile Char.isDigit
    if part.isEmpty then failure else return rest.drop part.length
  | _ => return rest

def offset? (s : List Char) : Option (List Char) :=
  match s with
  | 'Z' :: rest => some rest
  | 'z' :: rest => some rest
  | c :: rest =>
    if c == '+' || c == '-' then do
      let (hour, rest) ← count? 2 rest
      let rest ← char? ':' rest
      let (minute, rest) ← count? 2 rest
      if 23 < hour ∨ 59 < minute then failure else return rest
    else some s
  | [] => some s

/-- A date, a time, or both with an offset. -/
def moment? (s : List Char) : Option (Value × List Char) :=
  match date? s with
  | none => do return (.moment, ← time? s)
  | some rest =>
    match rest with
    | c :: behind =>
      if c == 'T' || c == 't' || c == ' ' then
        match time? behind with
        | some behind => do return (.moment, ← offset? behind)
        | none => some (.moment, rest)
      else some (.moment, rest)
    | [] => some (.moment, rest)

/-- A value that is no string and has no brackets. -/
def atom? (limits : Limits) (s : List Char) : Option (Value × List Char) :=
  match s with
  | 't' :: 'r' :: 'u' :: 'e' :: rest => some (.boolean true, rest)
  | 'f' :: 'a' :: 'l' :: 's' :: 'e' :: rest => some (.boolean false, rest)
  | _ => moment? s <|> special? s <|> number? limits s

end Rendezvous.Toml
