import Rendezvous.Proofs.Elapsed
import Rendezvous.Proofs.Identifiers
import Rendezvous.Random.Draws

/-!
# Seeds

The clock of a seed is counted in words of 64 bits, where every product and sum could overflow.
`Seed.nanoseconds?_eq` says that none does unless the nanoseconds themselves do, and
`Seed.microseconds?_eq` that the microseconds never do. Numbers are read back from their bytes by
`Seed.signed_littleEndian`, so that a seed tells its clock and its draw (`Seed.ofDraw_exact`).
-/

namespace Rendezvous

namespace Seed

open Rendezvous.Span (word?)

/-! ## The clock in words -/

def sum? (whole part : Int) : Option Int := (word? whole).bind fun n => word? (n + part)

/-- Nanoseconds since 1970. Before 1970 a second is moved from the product to the part, since the
product of the second alone could be out of range. -/
def nanoseconds? (t : Instant) : Option Int :=
  if t.seconds < 0 then sum? ((t.seconds + 1) * 1000000000) (t.nanos - 1000000000)
  else sum? (t.seconds * 1000000000) t.nanos

/-- Microseconds since 1970, rounded down. -/
def microseconds? (t : Instant) : Option Int :=
  sum? (t.seconds * 1000000) (t.nanos / 1000 : Nat)

theorem word?_of_fits {n : Int} (h : Fits n) : word? n = some n := if_pos h

theorem word?_of_not_fits {n : Int} (h : ¬ Fits n) : word? n = none := if_neg h

theorem sum?_eq {whole part : Int} (h : Fits (whole + part) → Fits whole) :
    sum? whole part = word? (whole + part) := by
  unfold sum?
  by_cases hwhole : Fits whole
  · rw [word?_of_fits hwhole, Option.bind_some]
  · rw [word?_of_not_fits hwhole, word?_of_not_fits (mt h hwhole), Option.bind_none]

/-- No step overflows unless the nanoseconds themselves do. -/
theorem nanoseconds?_eq (t : Instant) : nanoseconds? t = word? t.totalNanos := by
  have hnanos := t.nanos_lt
  have hleap := t.leap
  unfold nanoseconds?
  split
  · have hsum : (t.seconds + 1) * 1000000000 + ((t.nanos : Int) - 1000000000) = t.totalNanos := by
      unfold Instant.totalNanos
      omega
    rw [← hsum]
    refine sum?_eq fun hfits => ?_
    -- in a leap second the part is not negative, but there is none so close to the least word
    unfold Fits at *
    omega
  · refine sum?_eq fun hfits => ?_
    unfold Fits at *
    omega

theorem totalMicros_eq (t : Instant) : t.totalMicros = t.totalNanos / 1000 := by
  unfold Instant.totalMicros Instant.totalNanos
  omega

theorem fits_totalMicros (t : Instant) : Fits t.totalMicros := by
  have hleast := t.least
  have hgreatest := t.greatest
  have hnanos := t.nanos_lt
  unfold Fits Instant.totalMicros
  omega

/-- The years of an instant are too few for its microseconds to overflow. -/
theorem microseconds?_eq (t : Instant) : microseconds? t = some t.totalMicros := by
  have hleast := t.least
  have hgreatest := t.greatest
  unfold microseconds?
  rw [sum?_eq, ← Instant.totalMicros, word?_of_fits (fits_totalMicros t)]
  intro
  unfold Fits
  omega

theorem clockValue_eq (t : Instant) :
    (nanoseconds? t).or (microseconds? t) = some (clockValue t) := by
  rw [nanoseconds?_eq, microseconds?_eq]
  unfold clockValue word?
  split
  · rfl
  · rfl

theorem fits_clockValue (t : Instant) : Fits (clockValue t) := by
  unfold clockValue
  split
  · assumption
  · exact fits_totalMicros t

/-! ## Words as bytes -/

/-- The number that bytes spell, the least significant first. -/
def unsigned : List UInt8 → Nat
  | [] => 0
  | b :: rest => b.toNat + 256 * unsigned rest

/-- The number that bytes spell in two's complement. -/
def signed (bytes : List UInt8) : Int :=
  let n := unsigned bytes
  if 2 * n < 256 ^ bytes.length then n else n - (256 ^ bytes.length : Nat)

theorem length_littleEndian (width : Nat) (n : Int) : (littleEndian width n).length = width := by
  induction width generalizing n with
  | zero => rfl
  | succ width ih => rw [littleEndian, List.length_cons, ih]

theorem emod_add_emod (n : Int) (m : Nat) :
    n % 256 + 256 * (n / 256 % m) = n % (m * 256 : Nat) := by
  have hquotient : n / 256 / m = n / (256 * m) := by
    rw [Int.ediv_ediv, if_neg (by omega), Int.sub_zero]
  calc n % 256 + 256 * (n / 256 % m)
      = n % 256 + 256 * (n / 256) - 256 * m * (n / (256 * m)) := by
        rw [Int.emod_def (n / 256), hquotient, Int.mul_sub, Int.mul_assoc, Int.add_sub_assoc]
    _ = n % (256 * m) := by rw [Int.emod_add_mul_ediv, Int.emod_def n (256 * m)]
    _ = n % (m * 256 : Nat) := by rw [Nat.mul_comm, Int.natCast_mul]; rfl

theorem unsigned_littleEndian (width : Nat) (n : Int) :
    (unsigned (littleEndian width n) : Int) = n % (256 ^ width : Nat) := by
  induction width generalizing n with
  | zero =>
    rw [Nat.pow_zero, Int.natCast_one, Int.emod_one]
    rfl
  | succ width ih =>
    have hbyte : ((UInt8.ofNat (n % 256).toNat).toNat : Int) = n % 256 := by
      rw [UInt8.toNat_ofNat']
      omega
    rw [littleEndian, unsigned, Int.natCast_add, Int.natCast_mul, ih, hbyte]
    exact emod_add_emod n (256 ^ width)

theorem signed_littleEndian {n : Int} (h : Fits n) : signed (littleEndian 8 n) = n := by
  have hunsigned := unsigned_littleEndian 8 n
  unfold signed
  rw [length_littleEndian]
  unfold Fits at h
  dsimp only
  split
  · omega
  · omega

/-! ## Seeds -/

/-- How the seed of an instant and a draw is made, and of what bytes it is. -/
structure Exact (now : Instant) (draw : Uuid) : Prop where
  nanoseconds : nanoseconds? now = if Fits now.totalNanos then some now.totalNanos else none
  microseconds : Fits (now.totalNanos / 1000) ∧ microseconds? now = some (now.totalNanos / 1000)
  length : (ofDraw now draw).length = 24
  /-- The first eight bytes hold the nanoseconds, or the microseconds where those do not fit. -/
  clock : signed ((ofDraw now draw).take 8)
    = if Fits now.totalNanos then now.totalNanos else now.totalNanos / 1000
  counted : (nanoseconds? now).or (microseconds? now) = some (signed ((ofDraw now draw).take 8))
  draw : (ofDraw now draw).drop 8 = draw.bytes

theorem take_ofDraw (now : Instant) (draw : Uuid) :
    (ofDraw now draw).take 8 = littleEndian 8 (clockValue now) :=
  List.take_left' (length_littleEndian 8 _)

theorem signed_take_ofDraw (now : Instant) (draw : Uuid) :
    signed ((ofDraw now draw).take 8) = clockValue now := by
  rw [take_ofDraw, signed_littleEndian (fits_clockValue now)]

theorem drop_ofDraw (now : Instant) (draw : Uuid) : (ofDraw now draw).drop 8 = draw.bytes :=
  List.drop_left' (length_littleEndian 8 _)

theorem exact (now : Instant) (draw : Uuid) : Exact now draw where
  nanoseconds := nanoseconds?_eq now
  microseconds := by
    rw [microseconds?_eq, ← totalMicros_eq]
    exact ⟨fits_totalMicros now, rfl⟩
  length := by
    unfold ofDraw
    rw [List.length_append, length_littleEndian, draw.length_eq]
  clock := by
    rw [signed_take_ofDraw, ← totalMicros_eq]
    rfl
  counted := by rw [signed_take_ofDraw, clockValue_eq]
  draw := drop_ofDraw now draw

section

variable {now later : Instant} {draw other : Uuid}

/-- Seeds are the same exactly if their clocks and their draws are. -/
theorem ofDraw_eq_iff : ofDraw now draw = ofDraw later other ↔
    clockValue now = clockValue later ∧ draw = other := by
  constructor
  · intro h
    have hdraw : draw.bytes = other.bytes := by rw [← drop_ofDraw now, h, drop_ofDraw]
    refine ⟨?_, Uuid.eq_of_bytes hdraw⟩
    rw [← signed_take_ofDraw now draw, h, signed_take_ofDraw]
  · rintro ⟨hclock, rfl⟩
    unfold ofDraw
    rw [hclock]

/-- The seeds of a leap second are those of the second that follows it. -/
theorem ofDraw_leap (hseconds : later.seconds = now.seconds + 1)
    (hnanos : now.nanos = later.nanos + 1000000000) : ofDraw now draw = ofDraw later draw := by
  have hsame : now.totalNanos = later.totalNanos := by
    unfold Instant.totalNanos
    omega
  have hclock : clockValue now = clockValue later := by
    unfold clockValue
    rw [totalMicros_eq, totalMicros_eq, hsame]
  exact ofDraw_eq_iff.mpr ⟨hclock, rfl⟩

/-- Outside leap seconds an instant is told by its number of nanoseconds. -/
theorem eq_of_totalNanos (hnow : now.isLeap = false) (hlater : later.isLeap = false)
    (h : now.totalNanos = later.totalNanos) : now = later := by
  have hsame : now.seconds = later.seconds ∧ now.nanos = later.nanos := by
    unfold Instant.isLeap at hnow hlater
    unfold Instant.totalNanos at h
    rw [decide_eq_false_iff_not] at hnow hlater
    omega
  exact Instant.le_antisymm (Instant.le_iff.mpr (by omega)) (Instant.le_iff.mpr (by omega))

theorem clockValue_eq_iff (hnow : now.isLeap = false) (hlater : later.isLeap = false)
    (hfits : Fits now.totalNanos) (hfits' : Fits later.totalNanos) :
    clockValue now = clockValue later ↔ now = later := by
  constructor
  · intro h
    unfold clockValue at h
    rw [if_pos hfits, if_pos hfits'] at h
    exact eq_of_totalNanos hnow hlater h
  · exact congrArg clockValue

end

/-- A seed is made without overflow, and tells its clock and its draw. -/
theorem ofDraw_exact (now later : Instant) (draw other : Uuid) :
    Exact now draw ∧
      (ofDraw now draw = ofDraw later other ↔ clockValue now = clockValue later ∧ draw = other) ∧
      (now.isLeap = false → later.isLeap = false → Fits now.totalNanos → Fits later.totalNanos →
        (ofDraw now draw = ofDraw later other ↔ now = later ∧ draw = other)) := by
  refine ⟨exact now draw, ofDraw_eq_iff, fun hnow hlater hfits hfits' => ?_⟩
  rw [ofDraw_eq_iff, clockValue_eq_iff hnow hlater hfits hfits']

/-! ### The least word -/

/-- The earliest instant whose nanoseconds fit. -/
def earliest : Instant := ⟨-9223372037, 145224192, by omega, by omega, by omega, by omega⟩

def tooEarly : Instant := ⟨-9223372037, 145224191, by omega, by omega, by omega, by omega⟩

def nextEarliest : Instant := ⟨-9223372037, 145224193, by omega, by omega, by omega, by omega⟩

def firstDraw : Uuid := (Draws.draw {}).1

/-- The whole seconds alone do not fit, and the sum does. -/
theorem ofDraw_exact_earliest :
    word? (earliest.seconds * 1000000000) = none ∧
      signed ((ofDraw earliest firstDraw).take 8) = -9223372036854775808 ∧
      signed ((ofDraw tooEarly firstDraw).take 8) = -9223372036854776 ∧
      earliest.isLeap = false ∧ nextEarliest.isLeap = false ∧
      Fits earliest.totalNanos ∧ Fits nextEarliest.totalNanos ∧
      ofDraw earliest firstDraw ≠ ofDraw nextEarliest firstDraw := by
  have hfits : Fits earliest.totalNanos := by decide
  have hnext : Fits nextEarliest.totalNanos := by decide
  obtain ⟨hfirst, -, hdistinct⟩ := ofDraw_exact earliest nextEarliest firstDraw firstDraw
  obtain ⟨hearly, -, -⟩ := ofDraw_exact tooEarly earliest firstDraw firstDraw
  refine ⟨by decide, hfirst.clock.trans (by decide), hearly.clock.trans (by decide), rfl, rfl,
    hfits, hnext, fun h => ?_⟩
  have hsame := ((hdistinct rfl rfl hfits hnext).mp h).1
  exact absurd hsame (by decide)

end Seed
end Rendezvous
