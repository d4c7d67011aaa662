import Rendezvous.Text.Hex

/-!
# Random identifiers

A `Uuid` is sixteen bytes that carry version 4 and the standard variant in fixed bits; all others
are random. `Uuid.ofBlock` sets the fixed bits of sixteen bytes.
-/

namespace Rendezvous

structure Block where
  bytes : List UInt8
  length_eq : bytes.length = 16 := by rfl
  deriving DecidableEq

structure Uuid where
  bytes : List UInt8
  length_eq : bytes.length = 16
  version_eq : (bytes.getD 6 0).toNat / 16 = 4
  variant_eq : (bytes.getD 8 0).toNat / 64 = 2
  deriving DecidableEq

namespace Uuid

/-- Puts version 4 into the high half of a byte. -/
def stampVersion (b : UInt8) : UInt8 := UInt8.ofNat (0x40 + b.toNat % 16)

/-- Puts the standard variant into the two high bits of a byte. -/
def stampVariant (b : UInt8) : UInt8 := UInt8.ofNat (0x80 + b.toNat % 64)

theorem stampVersion_eq (b : UInt8) : (stampVersion b).toNat / 16 = 4 := by
  simp only [stampVersion, UInt8.toNat_ofNat']
  omega

theorem stampVariant_eq (b : UInt8) : (stampVariant b).toNat / 64 = 2 := by
  simp only [stampVariant, UInt8.toNat_ofNat']
  omega

def ofBlock (block : Block) : Uuid where
  bytes := (block.bytes.modify 6 stampVersion).modify 8 stampVariant
  length_eq := by simp [block.length_eq]
  version_eq := by
    have := block.length_eq
    simp [List.getD_eq_getElem?_getD, this, stampVersion_eq]
  variant_eq := by
    have := block.length_eq
    simp [List.getD_eq_getElem?_getD, this, stampVariant_eq]

def simple (id : Uuid) : String := Hex.lower id.bytes

end Uuid
end Rendezvous
