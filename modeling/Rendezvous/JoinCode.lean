import Rendezvous.Digest.Sha256
import Rendezvous.Random.Uuid
import Rendezvous.Text.Hex
import Rendezvous.Time.Instant

/-!
# Join codes

A join code is the first six capital hexadecimal digits of the hash of a seed. A seed is a time
and sixteen random bytes, so that two hosts of one instant get different codes.
-/

namespace Rendezvous

namespace JoinCode

/-- The code of a seed: six capital hexadecimal digits. -/
def ofSeed (seed : List UInt8) : String := Hex.upper ((Sha256.digest seed).take 3)

end JoinCode

namespace Seed

/-- The low `width` bytes of a number in two's complement, least significant first. -/
def littleEndian : (width : Nat) → (n : Int) → List UInt8
  | 0, _ => []
  | width + 1, n => UInt8.ofNat (n % 256).toNat :: littleEndian width (n / 256)

/-- The number fits 64 bits with a sign. -/
def Fits (n : Int) : Prop := -9223372036854775808 ≤ n ∧ n ≤ 9223372036854775807

instance (n : Int) : Decidable (Fits n) := by unfold Fits; infer_instance

/-- The number that stands for an instant: nanoseconds, or microseconds when those are too many. -/
def clockValue (now : Instant) : Int :=
  if Fits now.totalNanos then now.totalNanos else now.totalMicros

/-- The seed of one attempt at a join code. -/
def ofDraw (now : Instant) (draw : Uuid) : List UInt8 :=
  littleEndian 8 (clockValue now) ++ draw.bytes

end Seed
end Rendezvous
