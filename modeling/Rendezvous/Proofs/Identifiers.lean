import Rendezvous.JoinCode
import Rendezvous.Proofs.Bytes

/-!
# What ids and join codes look like

Both are written in hexadecimal digits. `Hex.bytes?_digits` reads the digits back, so that no two
identifiers are written alike (`Uuid.simple_injective`); `IsId` and `IsJoinCode` say which texts
are ids and join codes, and `Uuid.isId` and `JoinCode.isJoinCode` that all that are made are.
-/

namespace Rendezvous

/-! ## Hexadecimal digits -/

namespace Hex

def IsCase (a : Char) : Prop := a = 'a' ∨ a = 'A'

def alphabet (a : Char) : List Char := (List.range 16).map (digit a)

theorem digit_mem (a : Char) {n : Nat} (hn : n < 16) : digit a n ∈ alphabet a :=
  List.mem_map_of_mem (List.mem_range.mpr hn)

theorem value?_digit {a : Char} (ha : IsCase a) {n : Nat} (hn : n < 16) :
    value? (digit a n) = some n := by
  have hlower : ∀ n < 16, value? (digit 'a' n) = some n := by decide
  have hupper : ∀ n < 16, value? (digit 'A' n) = some n := by decide
  rcases ha with rfl | rfl
  · exact hlower n hn
  · exact hupper n hn

theorem digits_cons (a : Char) (b : UInt8) (bytes : List UInt8) :
    digits a (b :: bytes) = digit a (b.toNat / 16) :: digit a (b.toNat % 16) :: digits a bytes :=
  rfl

theorem length_digits (a : Char) (bytes : List UInt8) :
    (digits a bytes).length = 2 * bytes.length := by
  induction bytes with
  | nil => rfl
  | cons b bytes ih =>
    rw [digits_cons, List.length_cons, List.length_cons, ih, List.length_cons]
    omega

theorem mem_digits {a c : Char} {bytes : List UInt8} (h : c ∈ digits a bytes) : c ∈ alphabet a := by
  obtain ⟨b, -, hc⟩ := List.mem_flatMap.mp h
  have hb := b.toNat_lt
  simp only [List.mem_cons, List.not_mem_nil, or_false] at hc
  rcases hc with rfl | rfl
  · apply digit_mem
    omega
  · apply digit_mem
    omega

theorem getElem?_digits (a : Char) (bytes : List UInt8) (i : Nat) :
    (digits a bytes)[2 * i]? = bytes[i]?.map fun b => digit a (b.toNat / 16) := by
  induction bytes generalizing i with
  | nil => rfl
  | cons b bytes ih =>
    cases i with
    | zero => rfl
    | succ i =>
      rw [digits_cons, show 2 * (i + 1) = 2 * i + 1 + 1 by omega, List.getElem?_cons_succ,
        List.getElem?_cons_succ, List.getElem?_cons_succ, ih]

theorem take_digits (a : Char) (bytes : List UInt8) (count : Nat) :
    (digits a bytes).take (2 * count) = digits a (bytes.take count) := by
  induction count generalizing bytes with
  | zero => rfl
  | succ count ih =>
    cases bytes with
    | nil => rfl
    | cons b bytes =>
      rw [digits_cons, show 2 * (count + 1) = 2 * count + 1 + 1 by omega, List.take_succ_cons,
        List.take_succ_cons, ih, List.take_succ_cons, digits_cons]

/-- Capital digits are the small ones in capitals. -/
theorem map_toUpper_digits (bytes : List UInt8) :
    (digits 'a' bytes).map Char.toUpper = digits 'A' bytes := by
  have hdigit : ∀ n < 16, (digit 'a' n).toUpper = digit 'A' n := by decide
  induction bytes with
  | nil => rfl
  | cons b bytes ih =>
    have hb := b.toNat_lt
    rw [digits_cons, List.map_cons, List.map_cons, ih, hdigit _ (by omega), hdigit _ (by omega),
      digits_cons]

theorem bytes?_digits {a : Char} (ha : IsCase a) (bytes : List UInt8) :
    bytes? (digits a bytes) = some bytes := by
  induction bytes with
  | nil => rfl
  | cons b bytes ih =>
    have hb := b.toNat_lt
    have hhigh : value? (digit a (b.toNat / 16)) = some (b.toNat / 16) :=
      value?_digit ha (by omega)
    have hlow : value? (digit a (b.toNat % 16)) = some (b.toNat % 16) :=
      value?_digit ha (by omega)
    have hbyte : UInt8.ofNat (b.toNat / 16 * 16 + b.toNat % 16) = b := by
      rw [Nat.div_add_mod', UInt8.ofNat_toNat]
    rw [digits_cons, bytes?, hhigh, hlow, ih]
    exact congrArg (fun first => some (first :: bytes)) hbyte

end Hex

/-! ## Ids -/

/-- The text is an id: 32 small hexadecimal digits, with the marks of version 4. -/
structure IsId (text : String) : Prop where
  length : text.toList.length = 32
  digits : ∀ c ∈ text.toList, c ∈ "0123456789abcdef".toList
  version : text.toList[12]? = some '4'
  variant : ∃ c ∈ "89ab".toList, text.toList[16]? = some c

namespace Uuid

theorem toList_simple (id : Uuid) : id.simple.toList = Hex.digits 'a' id.bytes :=
  String.toList_ofList

theorem eq_of_bytes {x y : Uuid} (h : x.bytes = y.bytes) : x = y := by
  cases x
  cases y
  cases h
  rfl

/-- Different identifiers are written differently. -/
theorem simple_injective {x y : Uuid} (h : x.simple = y.simple) : x = y := by
  have hdigits : Hex.digits 'a' x.bytes = Hex.digits 'a' y.bytes := by
    rw [← toList_simple, h, toList_simple]
  have hbytes := congrArg Hex.bytes? hdigits
  rw [Hex.bytes?_digits (.inl rfl), Hex.bytes?_digits (.inl rfl)] at hbytes
  exact eq_of_bytes (Option.some.inj hbytes)

/-- The first digit of a byte of an identifier. -/
theorem getElem?_simple (id : Uuid) {i : Nat} (hi : i < 16) :
    id.simple.toList[2 * i]? = some (Hex.digit 'a' ((id.bytes.getD i 0).toNat / 16)) := by
  have hlt : i < id.bytes.length := by rw [id.length_eq]; exact hi
  rw [toList_simple, Hex.getElem?_digits, List.getD_eq_getElem?_getD,
    List.getElem?_eq_getElem hlt]
  rfl

theorem isId (id : Uuid) : IsId id.simple where
  length := by rw [toList_simple, Hex.length_digits, id.length_eq]
  digits c hc := by
    rw [toList_simple] at hc
    exact Hex.mem_digits hc
  version := by
    have hdigit := id.getElem?_simple (i := 6) (by omega)
    rw [id.version_eq] at hdigit
    exact hdigit
  variant := by
    have hdigits : ∀ n < 12, 8 ≤ n → Hex.digit 'a' n ∈ "89ab".toList := by decide
    have hmarked := id.variant_eq
    refine ⟨_, ?_, id.getElem?_simple (i := 8) (by omega)⟩
    exact hdigits _ (by omega) (by omega)

end Uuid

/-! ## Join codes -/

/-- The text is a join code: six capital hexadecimal digits. -/
structure IsJoinCode (text : String) : Prop where
  length : text.toList.length = 6
  digits : ∀ c ∈ text.toList, c ∈ "0123456789ABCDEF".toList

namespace JoinCode

theorem toList_ofSeed (seed : List UInt8) :
    (ofSeed seed).toList = Hex.digits 'A' ((Sha256.digest seed).take 3) :=
  String.toList_ofList

/-- The code is the start of the hash in small digits, put in capitals. -/
theorem toList_ofSeed_lower (seed : List UInt8) :
    (ofSeed seed).toList = ((Hex.lower (Sha256.digest seed)).toList.take 6).map Char.toUpper := by
  have hlower : (Hex.lower (Sha256.digest seed)).toList = Hex.digits 'a' (Sha256.digest seed) :=
    String.toList_ofList
  rw [hlower, Hex.take_digits 'a' _ 3, Hex.map_toUpper_digits, toList_ofSeed]

/-- Every seed has a code, whatever is in it. -/
theorem isJoinCode (seed : List UInt8) : IsJoinCode (ofSeed seed) where
  length := by
    rw [toList_ofSeed, Hex.length_digits, List.length_take, Sha256.length_digest]
    rfl
  digits c hc := by
    rw [toList_ofSeed] at hc
    exact Hex.mem_digits hc

end JoinCode
end Rendezvous
