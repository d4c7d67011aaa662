import Rendezvous.Text.Glyph

/-!
# Quoted text

A text between double quotes, in one line and with nothing invisible: quotes and backslashes take
a backslash, and characters without a glyph are written by their code points.
-/

namespace Rendezvous.Quoted

/-- The written form of one character inside the quotes. -/
def escape (c : Char) : List Char :=
  if c = '"' then ['\\', '"']
  else if c = '\\' then ['\\', '\\']
  else if c = '\t' then ['\\', 't']
  else if c = '\r' then ['\\', 'r']
  else if c = '\n' then ['\\', 'n']
  else if c.toNat = 0 then ['\\', '0']
  else if isGlyphless c then ['\\', 'u', '\x7b'] ++ Nat.toDigits 16 c.toNat ++ ['\x7d']
  else [c]

def encode (text : String) : String :=
  String.ofList ('"' :: text.toList.flatMap escape ++ ['"'])

end Rendezvous.Quoted
