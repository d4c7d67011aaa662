/-!
# UTF-8

`encode` writes characters as bytes. `next?` takes the well-formed character at the head of a list
of bytes, `split` goes on to the first byte that no character can hold, and `decode?` reads a whole
list.
-/

namespace Rendezvous.Utf8

/-- The bytes of a text. -/
def encode (text : String) : List UInt8 := text.toList.flatMap String.utf8EncodeChar

/-- The character with the code point `n`; surrogates and numbers past U+10FFFF have none. -/
def scalar? (n : Nat) : Option Char :=
  if n < 0xD800 ∨ (0xDFFF < n ∧ n < 0x110000) then some (Char.ofNat n) else none

/-- The six bits a continuation byte carries. -/
def trail? (b : UInt8) : Option Nat :=
  if 0x80 ≤ b.toNat ∧ b.toNat < 0xC0 then some (b.toNat - 0x80) else none

/-- The character with the code point `n`, unless a shorter form of it exists. -/
def noShorter? (least n : Nat) : Option Char := if n < least then none else scalar? n

/-- The well-formed character at the head of the bytes, and the bytes after it. -/
def next? : List UInt8 → Option (Char × List UInt8)
  | [] => none
  | a :: rest =>
    if a.toNat < 0x80 then some (Char.ofNat a.toNat, rest)
    else if a.toNat < 0xC0 then none
    else if a.toNat < 0xE0 then
      match rest with
      | b :: rest => do
        let y ← trail? b
        let c ← noShorter? 0x80 ((a.toNat - 0xC0) * 64 + y)
        some (c, rest)
      | _ => none
    else if a.toNat < 0xF0 then
      match rest with
      | b :: c :: rest => do
        let y ← trail? b
        let z ← trail? c
        let c ← noShorter? 0x800 (((a.toNat - 0xE0) * 64 + y) * 64 + z)
        some (c, rest)
      | _ => none
    else if a.toNat < 0xF8 then
      match rest with
      | b :: c :: d :: rest => do
        let x ← trail? b
        let y ← trail? c
        let z ← trail? d
        let c ← noShorter? 0x10000 ((((a.toNat - 0xF0) * 64 + x) * 64 + y) * 64 + z)
        some (c, rest)
      | _ => none
    else none

theorem length_of_next? {bytes rest : List UInt8} {c : Char} (h : next? bytes = some (c, rest)) :
    rest.length < bytes.length := by
  unfold next? at h
  split at h
  · simp at h
  · split at h
    · simp only [Option.some.injEq, Prod.mk.injEq] at h
      obtain ⟨_, rfl⟩ := h
      simp
    · repeat' split at h
      all_goals first
        | (simp at h; done)
        | (simp only [Option.bind_eq_bind, Option.bind_eq_some_iff, Option.some.injEq,
            Prod.mk.injEq] at h
           grind)

/-- The characters before the first ill-formed byte, and that byte with all that follow it. -/
def split (bytes : List UInt8) (seen : List Char) : List Char × List UInt8 :=
  match _h : next? bytes with
  | some (c, rest) => split rest (c :: seen)
  | none => (seen.reverse, bytes)
termination_by bytes.length
decreasing_by exact length_of_next? ‹_›

/-- The text the bytes spell, when all of them are well formed. -/
def decode? (bytes : List UInt8) : Option String :=
  match split bytes [] with
  | (text, []) => some (String.ofList text)
  | _ => none

end Rendezvous.Utf8
