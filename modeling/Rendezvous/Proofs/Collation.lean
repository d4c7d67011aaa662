import Rendezvous.Proofs.Tables

/-!
# The order of stored texts

A database compares texts byte by byte. `Utf8.encode_lt_iff` says that texts are ordered by their
bytes as they are by their characters, however many bytes a character takes. `Stamp.full_collates`
says that the full forms of two instants of the years 0000 to 9999 have one length and are ordered
as the instants are, a leap second between its minute and the next one, and that each is read back.
-/

namespace Rendezvous

/-! ## Characters -/

namespace Utf8

/-- How many bytes follow the first one of the character with the code point `v`. -/
def trailing (v : Nat) : Nat :=
  if v ≤ 0x7F then 0 else if v ≤ 0x7FF then 1 else if v ≤ 0xFFFF then 2 else 3

/-- The first byte: the mark of the length, and the highest bits. -/
def lead (v : Nat) : Nat :=
  if v ≤ 0x7F then v else if v ≤ 0x7FF then v / 64 + 0xC0
  else if v ≤ 0xFFFF then v / 64 ^ 2 + 0xE0 else v / 64 ^ 3 + 0xF0

/-- The last `count` bytes, six bits in each. -/
def trails : (count : Nat) → (v : Nat) → List UInt8
  | 0, _ => []
  | count + 1, v => UInt8.ofNat (v / 64 ^ count % 64 + 0x80) :: trails count v

theorem utf8EncodeChar_eq (c : Char) : String.utf8EncodeChar c
    = UInt8.ofNat (lead c.toNat) :: trails (trailing c.toNat) c.toNat := by
  have hmax := toNat_lt c
  have hval : c.val.toNat = c.toNat := rfl
  simp only [String.utf8EncodeChar, lead, trailing, hval]
  generalize c.toNat = v at hmax
  split
  · rfl
  split
  · have hlead : v / 64 % 0x20 = v / 64 := Nat.mod_eq_of_lt (by omega)
    rw [hlead]
    simp [trails]
  split
  · have hlead : v / 4096 % 0x10 = v / 4096 := Nat.mod_eq_of_lt (by omega)
    rw [hlead]
    simp [trails]
  · have hlead : v / 262144 % 0x08 = v / 262144 := Nat.mod_eq_of_lt (by omega)
    rw [hlead]
    simp [trails]

theorem lead_lt {v : Nat} (h : v < 0x110000) : lead v < 256 := by
  simp only [lead]
  split
  · omega
  split
  · omega
  split
  · omega
  · omega

/-- The first byte tells two characters apart, unless both have the same one. -/
theorem lead_lt_or {v w : Nat} (h : v < w) : lead v < lead w ∨
    lead v = lead w ∧ trailing v = trailing w ∧ v / 64 ^ trailing v = w / 64 ^ trailing v := by
  simp only [lead, trailing]
  -- one case for each two lengths; longer forms have greater marks
  repeat' split
  all_goals omega

theorem cons_lt {m n : Nat} {x y : List UInt8} (hn : n < 256) (h : m < n ∨ m = n ∧ x < y) :
    UInt8.ofNat m :: x < UInt8.ofNat n :: y := by
  rw [List.cons_lt_cons_iff]
  rcases h with h | ⟨rfl, h⟩
  · refine .inl (UInt8.lt_iff_toNat_lt.mpr ?_)
    rw [UInt8.toNat_ofNat', UInt8.toNat_ofNat']
    omega
  · exact .inr ⟨rfl, h⟩

/-- Below the same leading bits the smaller code point has the smaller bytes. -/
theorem trails_lt {count v w : Nat} (h : v < w) (hlead : v / 64 ^ count = w / 64 ^ count)
    (x y : List UInt8) : trails count v ++ x < trails count w ++ y := by
  induction count with
  | zero =>
    rw [Nat.pow_zero, Nat.div_one, Nat.div_one] at hlead
    omega
  | succ count ih =>
    rw [Nat.pow_succ, ← Nat.div_div_eq_div_mul, ← Nat.div_div_eq_div_mul] at hlead
    refine cons_lt (by omega) ?_
    rcases Nat.lt_or_eq_of_le (Nat.div_le_div_right (Nat.le_of_lt h) : v / 64 ^ count ≤ _)
      with hq | hq
    · exact .inl (by omega)
    · exact .inr ⟨by rw [hq], ih hq⟩

/-- A character before another is written before it, whatever follows them. -/
theorem utf8EncodeChar_append_lt {c d : Char} (h : c < d) (x y : List UInt8) :
    String.utf8EncodeChar c ++ x < String.utf8EncodeChar d ++ y := by
  have hlt : c.toNat < d.toNat := UInt32.lt_iff_toNat_lt.mp h
  rw [utf8EncodeChar_eq, utf8EncodeChar_eq]
  refine cons_lt (lead_lt (toNat_lt d)) ((lead_lt_or hlt).imp_right fun ⟨hlead, hsame, hrest⟩ => ?_)
  exact ⟨hlead, hsame ▸ trails_lt hlt hrest x y⟩

theorem flatMap_lt {s t : List Char} (h : s < t) :
    s.flatMap String.utf8EncodeChar < t.flatMap String.utf8EncodeChar := by
  induction s generalizing t with
  | nil =>
    cases t with
    | nil => exact absurd h (List.lt_irrefl [])
    | cons d t =>
      rw [List.flatMap_nil, List.flatMap_cons, utf8EncodeChar_eq]
      exact List.nil_lt_cons ..
  | cons c s ih =>
    cases t with
    | nil => exact absurd h (List.not_lt_nil _)
    | cons d t =>
      rw [List.flatMap_cons, List.flatMap_cons]
      rcases List.cons_lt_cons_iff.mp h with hcd | ⟨rfl, hst⟩
      · exact utf8EncodeChar_append_lt hcd _ _
      · exact List.append_left_lt (ih hst)

/-- The order of texts is the order of their bytes. -/
theorem encode_lt_iff {s t : String} : encode s < encode t ↔ s < t := by
  constructor
  · intro h
    refine Decidable.byContradiction fun hst => ?_
    have hts : t ≤ s := String.not_lt.mp hst
    by_cases heq : t = s
    · exact List.lt_irrefl _ (heq ▸ h)
    · have hlt : t < s := String.not_le.mp fun hle => heq (String.le_antisymm hts hle)
      exact List.lt_asymm h (flatMap_lt hlt)
  · exact flatMap_lt

end Utf8

/-- A database compares texts by their bytes. -/
theorem Cell.le_text_iff {s t : String} :
    (Cell.text s).le (.text t) = true ↔ ¬ Utf8.encode t < Utf8.encode s := by
  rw [Cell.le, decide_eq_true_iff, Utf8.encode_lt_iff, String.not_lt]

/-! ## Instants -/

namespace Instant

/-- Earlier: by the date, then by the second of the day, then by the nanoseconds, which go on in a
leap second. -/
def Before (a b : Instant) : Prop := a.date.Before b.date ∨ a.date = b.date ∧
  (a.secondOfDay < b.secondOfDay ∨ a.secondOfDay = b.secondOfDay ∧ a.nanos < b.nanos)

variable {a b : Instant}

theorem toDays_date (t : Instant) : t.date.toDays = t.seconds / 86400 := Date.toDays_ofDays _

theorem date_eq_iff : a.date = b.date ↔ a.seconds / 86400 = b.seconds / 86400 := by
  constructor
  · intro h
    rw [← toDays_date, h, toDays_date]
  · exact congrArg Date.ofDays

theorem date_before_iff : a.date.Before b.date ↔ a.seconds / 86400 < b.seconds / 86400 := by
  constructor
  · intro h
    rw [← toDays_date, ← toDays_date]
    exact Date.toDays_lt_of_before (Date.valid_ofDays _) (Date.valid_ofDays _) h
  · exact Date.before_ofDays

theorem not_before : ¬ b.Before a ↔ a.le b = true := by
  rw [le_iff, Before, date_before_iff, date_eq_iff]
  unfold secondOfDay
  omega

end Instant

namespace Stamp

variable {a b : Instant}

theorem length_encode_full (ha : a.Storable) : (Utf8.encode (full a)).length = 30 := by
  rw [encode_full ha]
  simp only [List.length_append, List.length_cons, List.length_nil, Decimal.length_fixedBytes]

theorem encode_full_lt_iff (ha : a.Storable) (hb : b.Storable) :
    Utf8.encode (full a) < Utf8.encode (full b) ↔ a.Before b := by
  rw [Utf8.encode_lt_iff, ← String.not_le, full_le_iff hb ha, ← Instant.not_before,
    Classical.not_not]

theorem full_eq_iff (ha : a.Storable) (hb : b.Storable) : full a = full b ↔ a = b :=
  ⟨Row.full_injective ha hb, congrArg full⟩

/-- What is stored for two instants compares as they do, and is read as they were. -/
structure Collates (a b : Instant) : Prop where
  width : (Utf8.encode (full a)).length = 30
  lt_iff : Utf8.encode (full a) < Utf8.encode (full b) ↔ a.Before b
  eq_iff : full a = full b ↔ a = b
  /-- The database sorts the texts as the instants are sorted. -/
  sorted : Cell.le (.text (full a)) (.text (full b)) = a.le b
  read : ∀ column, Row.instant column (full a) = .ok a

theorem full_collates (ha : a.Storable) (hb : b.Storable) : Collates a b where
  width := length_encode_full ha
  lt_iff := encode_full_lt_iff ha hb
  eq_iff := full_eq_iff ha hb
  sorted := by
    rw [Bool.eq_iff_iff, Cell.le_text_iff, encode_full_lt_iff hb ha, Instant.not_before]
  read column := Row.instant_full ha column

/-! ### The end of 2016 -/

def leapEnd : Instant := ⟨1483228799, 1999999999, by omega, by omega, by omega, by omega⟩

def afterLeap : Instant := (Instant.of? 1483228800 0).getD .epoch

example : full leapEnd = "2016-12-31T23:59:60.999999999Z" := by decide

theorem full_collates_leapEnd : leapEnd.Storable ∧ afterLeap.Storable ∧
    Collates leapEnd afterLeap ∧ leapEnd.Before afterLeap ∧
    Utf8.encode (full leapEnd) < Utf8.encode (full afterLeap) := by
  have hleap : leapEnd.Storable := by decide
  have hafter : afterLeap.Storable := by decide
  have hbefore : leapEnd.Before afterLeap := .inl (Instant.date_before_iff.mpr (by decide))
  have hcollates := full_collates hleap hafter
  exact ⟨hleap, hafter, hcollates, hbefore, hcollates.lt_iff.mpr hbefore⟩

end Stamp
end Rendezvous
