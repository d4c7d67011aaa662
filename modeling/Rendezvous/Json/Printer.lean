import Rendezvous.Json.Basic
import Rendezvous.Number.Layout
import Rendezvous.Text.Hex

/-!
# Printed JSON

`Json.print` writes a document without white space. `bracesOf` writes fields in the order
given, for the records whose field order is fixed.
-/

namespace Rendezvous.Json

def escape (c : Char) : List Char :=
  if c = '"' then ['\\', '"']
  else if c = '\\' then ['\\', '\\']
  else if c.toNat = 8 then ['\\', 'b']
  else if c.toNat = 9 then ['\\', 't']
  else if c.toNat = 10 then ['\\', 'n']
  else if c.toNat = 12 then ['\\', 'f']
  else if c.toNat = 13 then ['\\', 'r']
  else if c.toNat < 32 then
    ['\\', 'u', '0', '0', Hex.digit 'a' (c.toNat / 16), Hex.digit 'a' (c.toNat % 16)]
  else [c]

def quote (text : String) : List Char := '"' :: text.toList.flatMap escape ++ ['"']

def commas : List (List Char) → List Char
  | [] => []
  | [x] => x
  | x :: rest => x ++ ',' :: commas rest

/-- An object with its fields in the order given; the values are already written. -/
def bracesOf (fields : List (String × List Char)) : List Char :=
  '\x7b' :: commas (fields.map fun f => quote f.1 ++ ':' :: f.2) ++ ['\x7d']

mutual

/-- The document without white space. -/
def chars : Json → List Char
  | .null => ['n', 'u', 'l', 'l']
  | .bool true => ['t', 'r', 'u', 'e']
  | .bool false => ['f', 'a', 'l', 's', 'e']
  | .int n => (Decimal.integer n).toList
  | .real x => (Layout.json.write x.shortest).toList
  | .string s => quote s
  | .array items => '[' :: commas (charsOfItems items) ++ [']']
  | .object fields => bracesOf (charsOfFields fields)

def charsOfItems : List Json → List (List Char)
  | [] => []
  | v :: rest => chars v :: charsOfItems rest

def charsOfFields : List (String × Json) → List (String × List Char)
  | [] => []
  | (k, v) :: rest => (k, chars v) :: charsOfFields rest

end

def print (v : Json) : String := String.ofList v.chars

end Rendezvous.Json
