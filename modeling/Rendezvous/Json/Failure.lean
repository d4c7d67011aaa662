import Rendezvous.Number.Layout
import Rendezvous.Text.Quoted
import Rendezvous.Time.Field

/-!
# Failures of reading JSON

A `Failure` is a cause, the line and column it was noticed at, and the path of the value that was
being read. A cause is a matter of syntax (the text is no JSON, or ends too early) or of shape
(it is JSON of the wrong form).
-/

namespace Rendezvous.Json

/-- What a text can break off in the middle of. -/
inductive Unfinished
  | value
  | array
  | object
  | string
  deriving DecidableEq, Repr

/-- What stood where something else was expected. -/
inductive Found
  | null
  | bool (value : Bool)
  | int (value : Int)
  | real (value : Double)
  | string (value : String)
  | sequence
  | map
  deriving DecidableEq, Repr

inductive Cause
  | endOf (what : Unfinished)
  | expectedValue
  | expectedIdent
  | expectedColon
  | expectedCommaOrBrace
  | expectedCommaOrBracket
  | trailingComma
  | keyNotString
  | invalidNumber
  | numberOutOfRange
  | invalidEscape
  | controlCharacter
  | unexpectedEndOfEscape
  | loneSurrogate
  | invalidCodePoint
  | depthExceeded
  | trailingCharacters
  | wrongType (found : Found) (expected : String)
  | wrongValue (found : Found) (expected : String)
  | missingField (name : String)
  | duplicateField (name : String)
  | wrongLength (length : Nat) (record : String) (size : Nat)
  | badInstant (flaw : Stamp.Flaw)
  deriving DecidableEq, Repr

/-- The text is well formed as far as it was read; only its shape is wrong. -/
def Cause.isShape : Cause → Bool
  | .wrongType .. | .wrongValue .. | .missingField _ | .duplicateField _ | .wrongLength ..
  | .badInstant _ => true
  | _ => false

def Unfinished.name : Unfinished → String
  | .value => "a value"
  | .array => "a list"
  | .object => "an object"
  | .string => "a string"

/-- A name between backquotes. -/
def ticked (text : String) : String := "`" ++ text ++ "`"

def Found.describe : Found → String
  | .null => "null"
  | .bool value => "boolean " ++ ticked (if value then "true" else "false")
  | .int n => "integer " ++ ticked (Decimal.integer n)
  | .real x => "floating point " ++ ticked (Layout.json.write x.shortest)
  | .string s => "string " ++ Quoted.encode s
  | .sequence => "sequence"
  | .map => "map"

def Cause.message : Cause → String
  | .endOf what => "EOF while parsing " ++ what.name
  | .expectedValue => "expected value"
  | .expectedIdent => "expected ident"
  | .expectedColon => "expected " ++ ticked ":"
  | .expectedCommaOrBrace => "expected " ++ ticked "," ++ " or " ++ ticked "\x7d"
  | .expectedCommaOrBracket => "expected " ++ ticked "," ++ " or " ++ ticked "]"
  | .trailingComma => "trailing comma"
  | .keyNotString => "key must be a string"
  | .invalidNumber => "invalid number"
  | .numberOutOfRange => "number out of range"
  | .invalidEscape => "invalid escape"
  | .controlCharacter => "control character (\\u0000-\\u001F) found while parsing a string"
  | .unexpectedEndOfEscape => "unexpected end of hex escape"
  | .loneSurrogate => "lone leading surrogate in hex escape"
  | .invalidCodePoint => "invalid unicode code point"
  | .depthExceeded => "recursion limit exceeded"
  | .trailingCharacters => "trailing characters"
  | .wrongType found expected => "invalid type: " ++ found.describe ++ ", expected " ++ expected
  | .wrongValue found expected => "invalid value: " ++ found.describe ++ ", expected " ++ expected
  | .missingField name => "missing field " ++ ticked name
  | .duplicateField name => "duplicate field " ++ ticked name
  | .wrongLength length record size =>
    "invalid length " ++ Decimal.natural length ++ ", expected " ++ record ++ " with " ++
      Decimal.natural size ++ " elements"
  | .badInstant flaw => flaw.message

/-- One step down into a document. -/
inductive Segment
  | field (name : String)
  | index (place : Nat)
  /-- The next field of an object, its name not known yet. -/
  | unnamed
  deriving DecidableEq, Repr

structure Failure where
  cause : Cause
  line : Nat
  column : Nat
  path : List Segment := []
  deriving DecidableEq, Repr

def Failure.message (f : Failure) : String :=
  f.cause.message ++ " at line " ++ Decimal.natural f.line ++ " column " ++ Decimal.natural f.column

/-- The path as it is written: names after points, places in brackets. -/
def pathText : (first : Bool) → List Segment → String
  | _, [] => ""
  | first, .field name :: rest => (if first then "" else ".") ++ name ++ pathText false rest
  | first, .unnamed :: rest => (if first then "" else ".") ++ "?" ++ pathText false rest
  | _, .index place :: rest => "[" ++ Decimal.natural place ++ "]" ++ pathText false rest

/-- The message with the path in front, when the path names anything. -/
def Failure.messageWithPath (f : Failure) : String :=
  if f.path.all (· == .unnamed) then f.message else pathText true f.path ++ ": " ++ f.message

end Rendezvous.Json
